import BuiltinActors.Address

namespace BuiltinActors.Power

/-- A smoothed estimate (position and velocity, fixed point). -/
structure FilterEstimate where
  position : Int
  velocity : Int
  deriving DecidableEq, Repr

/-- The power a miner claims; `windowPoStProofType` is the registered PoSt proof, by number. -/
structure Claim where
  windowPoStProofType : Nat
  rawBytePower : Int
  qualityAdjPower : Int
  deriving DecidableEq, Repr

structure CronEvent where
  minerAddr : Address
  callbackPayload : List UInt8
  deriving DecidableEq, Repr

/-- Power actor state. The claims map and the cron queue (epoch to its events, in
enrollment order) are given by their contents; `epoch_key` is injective. -/
structure State where
  totalRawBytePower : Int
  totalBytesCommitted : Int
  totalQualityAdjPower : Int
  totalQABytesCommitted : Int
  totalPledgeCollateral : Int
  thisEpochRawBytePower : Int
  thisEpochQualityAdjPower : Int
  thisEpochPledgeCollateral : Int
  thisEpochQAPowerSmoothed : FilterEstimate
  minerCount : Int
  minerAboveMinPowerCount : Int
  rampStartEpoch : Int
  rampDurationEpochs : Nat
  cronEventQueue : AList (fun _ : Int => List CronEvent)
  firstCronEpoch : Int
  claims : AList (fun _ : Address => Claim)

/-- What the power actor reads but `src/` does not define: the policy table
(`consensus_miner_min_power`, `CONSENSUS_MINER_MIN_MINERS`), the initial power estimate,
and the alpha-beta filter that updates the smoothed estimate. -/
structure Policy where
  consensusMinerMinPower : Nat → Except String Int
  consensusMinerMinMiners : Int
  initialQAPowerEstimate : FilterEstimate
  nextEstimate : FilterEstimate → Int → Int → FilterEstimate

abbrev PowerM := EStateM ActorError State

/-- Modelled from the spec: `State::new` (power `state.rs`, not in `src/`): zero totals and
counts, empty claims and cron queue, `first_cron_epoch` 0. -/
def State.new (policy : Policy) : State :=
  ⟨0, 0, 0, 0, 0, 0, 0, 0, policy.initialQAPowerEstimate, 0, 0, 0, 0, ∅, 0, ∅⟩

/-- Modelled from the spec: `State::current_total_power` (not in `src/`): the committed
totals while fewer than the minimum number of miners meet the consensus minimum, the
totals above the minimum after. -/
def State.currentTotalPower (policy : Policy) (st : State) : Int × Int :=
  if st.minerAboveMinPowerCount < policy.consensusMinerMinMiners then
    (st.totalBytesCommitted, st.totalQABytesCommitted)
  else (st.totalRawBytePower, st.totalQualityAdjPower)

/-- Modelled from the spec: `set_claim` (not in `src/`), which refuses negative power. -/
def setClaim (a : Address) (claim : Claim) : PowerM Unit := do
  let raw := claim.rawBytePower
  let qa := claim.qualityAdjPower
  if raw < 0 then throw (.illegalState s!"negative claim raw power {raw}")
  else if qa < 0 then throw (.illegalState s!"negative claim quality-adjusted power {qa}")
  else modify fun st => { st with claims := st.claims.insert a claim }

/-- The policy's consensus minimum for a proof type, as an actor error. -/
def consensusMinerMinPower (policy : Policy) (proof : Nat) : PowerM Int :=
  match policy.consensusMinerMinPower proof with
  | .ok p => pure p
  | .error e => throw (.illegalState s!"could not get consensus miner min power: {e}")

/-- Modelled from the spec: `State::add_to_claim` (not in `src/`). It adds the deltas to the
miner's claim and to the committed totals, moves the miner across the consensus minimum,
and checks the results; its writes before a failed check stay in the state. -/
def addToClaim (policy : Policy) (miner : Address) (power qaPower : Int) : PowerM Unit := do
  let some oldClaim := (← get).claims.lookup miner
    | throw (.notFound s!"no claim for actor {miner}")
  modify fun st => { st with
    totalQABytesCommitted := st.totalQABytesCommitted + qaPower,
    totalBytesCommitted := st.totalBytesCommitted + power }
  let newClaim : Claim := { oldClaim with
    rawBytePower := oldClaim.rawBytePower + power,
    qualityAdjPower := oldClaim.qualityAdjPower + qaPower }
  let minPowerRef ← consensusMinerMinPower policy oldClaim.windowPoStProofType
  let prevBelow := decide (oldClaim.rawBytePower < minPowerRef)
  let stillBelow := decide (newClaim.rawBytePower < minPowerRef)
  if prevBelow && !stillBelow then
    modify fun st => { st with
      minerAboveMinPowerCount := st.minerAboveMinPowerCount + 1,
      totalQualityAdjPower := st.totalQualityAdjPower + newClaim.qualityAdjPower,
      totalRawBytePower := st.totalRawBytePower + newClaim.rawBytePower }
  else if !prevBelow && stillBelow then
    modify fun st => { st with
      minerAboveMinPowerCount := st.minerAboveMinPowerCount - 1,
      totalQualityAdjPower := st.totalQualityAdjPower - oldClaim.qualityAdjPower,
      totalRawBytePower := st.totalRawBytePower - oldClaim.rawBytePower }
  else if !prevBelow && !stillBelow then
    modify fun st => { st with
      totalQualityAdjPower := st.totalQualityAdjPower + qaPower,
      totalRawBytePower := st.totalRawBytePower + power }
  let raw := newClaim.rawBytePower
  let qa := newClaim.qualityAdjPower
  if raw < 0 then throw (.illegalArgument s!"negative claimed raw byte power: {raw}")
  else if qa < 0 then throw (.illegalArgument s!"negative claimed quality adjusted power: {qa}")
  else
    let count := (← get).minerAboveMinPowerCount
    if count < 0 then throw (.illegalState s!"negative number of miners larger than min: {count}")
    else setClaim miner newClaim

/-- Modelled from the spec: `State::delete_claim` (not in `src/`). A miner without a claim
has nothing to delete; otherwise its power is subtracted and its claim removed. -/
def deleteClaim (policy : Policy) (miner : Address) : PowerM Unit := do
  match (← get).claims.lookup miner with
  | none => pure ()
  | some claim =>
    addToClaim policy miner (-claim.rawBytePower) (-claim.qualityAdjPower)
    modify fun st => { st with claims := st.claims.erase miner }

/-- Modelled from the spec: `State::update_stats_for_new_miner` (not in `src/`): a miner
counts as above the consensus minimum at once when that minimum is not positive. -/
def updateStatsForNewMiner (policy : Policy) (windowPoStProof : Nat) : PowerM Unit := do
  let minPower ← consensusMinerMinPower policy windowPoStProof
  if ¬0 < minPower then
    modify fun st => { st with minerAboveMinPowerCount := st.minerAboveMinPowerCount + 1 }

/-- Modelled from the spec: `State::validate_miner_has_claim` (not in `src/`). -/
def validateMinerHasClaim (minerAddr : Address) : PowerM Unit := do
  if ((← get).claims.lookup minerAddr).isSome then pure ()
  else throw (.forbidden s!"unknown miner {minerAddr} forbidden to interact with power actor")

/-- Modelled from the spec: `State::add_pledge_total` (not in `src/`). -/
def addPledgeTotal (amount : Int) : PowerM Unit :=
  modify fun st => { st with totalPledgeCollateral := st.totalPledgeCollateral + amount }

/-- Modelled from the spec: `State::append_cron_event` (not in `src/`). An event for an epoch
before `first_cron_epoch` moves it back to that epoch, which is why `enroll_cron_event`
refuses negative epochs; the event goes last in its epoch's list. -/
def appendCronEvent (epoch : Int) (event : CronEvent) : PowerM Unit := do
  if epoch < (← get).firstCronEpoch then
    modify fun st => { st with firstCronEpoch := epoch }
  modify fun st =>
    let events := (st.cronEventQueue.lookup epoch).getD [] ++ [event]
    { st with cronEventQueue := st.cronEventQueue.insert epoch events }

/-- Modelled from the spec: `load_cron_events` (not in `src/`): an epoch's events, in order. -/
def loadCronEvents (events : AList (fun _ : Int => List CronEvent)) (epoch : Int) :
    List CronEvent :=
  (events.lookup epoch).getD []

/-- Modelled from the spec: `State::update_smoothed_estimate` (not in `src/`). -/
def updateSmoothedEstimate (policy : Policy) (delta : Int) : PowerM Unit :=
  modify fun st =>
    let smoothed := policy.nextEstimate st.thisEpochQAPowerSmoothed st.thisEpochQualityAdjPower delta
    { st with thisEpochQAPowerSmoothed := smoothed }

end BuiltinActors.Power
