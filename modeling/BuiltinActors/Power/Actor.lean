import BuiltinActors.Power.State

namespace BuiltinActors.Power

/-- The immediate caller, as the runtime's caller checks see it. -/
structure Caller where
  address : Address
  isMiner : Bool

/-- `CRON_ACTOR_ADDR`, the cron singleton. -/
def cronActorAddr : Address := .id 3

structure CreateMinerParams where
  windowPoStProofType : Nat

/-- The init actor's answer to `Exec`, also returned by `create_miner`. -/
structure ExecReturn where
  idAddress : Address
  robustAddress : Address

structure UpdateClaimedPowerParams where
  rawByteDelta : Int
  qualityAdjustedDelta : Int

structure EnrollCronEventParams where
  eventEpoch : Int
  payload : List UInt8

structure UpdatePledgeTotalParams where
  pledgeDelta : Int

structure ThisEpochRewardReturn where
  thisEpochRewardSmoothed : FilterEstimate
  thisEpochBaselinePower : Int

structure CurrentTotalPowerReturn where
  rawBytePower : Int
  qualityAdjPower : Int
  pledgeCollateral : Int
  qualityAdjPowerSmoothed : FilterEstimate
  rampStartEpoch : Int
  rampDurationEpochs : Nat
  deriving DecidableEq

/-- `rt.transaction`: the closure's writes persist only when it returns `Ok`. -/
def transaction {α : Type} (f : PowerM α) : PowerM α := fun st =>
  match f st with
  | .ok a st' => .ok a st'
  | .error e _ => .error e st

/-- The answer of another actor to a send, as `extract_send_result` passes it on. -/
def liftSend {α : Type} (context : String) : Except ActorError α → PowerM α
  | .ok a => pure a
  | .error e => throw { e with msg := s!"{context}: {e.msg}" }

def validateImmediateCallerIsMiner (caller : Caller) : PowerM Unit :=
  if caller.isMiner then pure ()
  else throw (.forbidden s!"caller {caller.address} is not of type miner")

def createMiner (policy : Policy) (params : CreateMinerParams)
    (exec : Except ActorError ExecReturn) : PowerM ExecReturn := do
  let ⟨idAddress, robustAddress⟩ ← liftSend "init actor exec" exec
  let windowPoStProofType := params.windowPoStProofType
  transaction do
    setClaim idAddress ⟨windowPoStProofType, 0, 0⟩
    modify fun st => { st with minerCount := st.minerCount + 1 }
    tryCatch (updateStatsForNewMiner policy windowPoStProofType) fun e =>
      let reason := e.msg
      throw (.illegalState s!"failed to update power stats for new miner {idAddress}: {reason}")
  pure ⟨idAddress, robustAddress⟩

/-- Adds or removes claimed power for the calling miner. -/
def updateClaimedPower (policy : Policy) (caller : Caller) (params : UpdateClaimedPowerParams) :
    PowerM Unit := do
  validateImmediateCallerIsMiner caller
  transaction (addToClaim policy caller.address params.rawByteDelta params.qualityAdjustedDelta)

def enrollCronEvent (caller : Caller) (params : EnrollCronEventParams) : PowerM Unit := do
  validateImmediateCallerIsMiner caller
  let minerEvent : CronEvent := ⟨caller.address, params.payload⟩
  -- a large negative epoch would make the next tick walk from far in the past
  let eventEpoch := params.eventEpoch
  if eventEpoch < 0 then
    throw (.illegalArgument s!"cron event epoch {eventEpoch} cannot be less than zero")
  transaction (appendCronEvent eventEpoch minerEvent)

def updatePledgeTotal (caller : Caller) (params : UpdatePledgeTotalParams) : PowerM Unit := do
  validateImmediateCallerIsMiner caller
  transaction do
    validateMinerHasClaim caller.address
    addPledgeTotal params.pledgeDelta
    let total := (← get).totalPledgeCollateral
    if total < 0 then throw (.illegalState s!"negative total pledge collateral {total}")

/-- The totals frozen at the last tick, returned by `CurrentTotalPower`. -/
def currentTotalPower (st : State) : CurrentTotalPowerReturn :=
  ⟨st.thisEpochRawBytePower, st.thisEpochQualityAdjPower, st.thisEpochPledgeCollateral,
    st.thisEpochQAPowerSmoothed, st.rampStartEpoch, st.rampDurationEpochs⟩

def networkRawPower (st : State) : Int :=
  st.thisEpochRawBytePower

/-- `MinerCount`: the miners created, whether or not they have storage. -/
def minerCount (st : State) : Int :=
  st.minerCount

/-- `MinerConsensusCount`: the miners above the consensus minimum. -/
def minerConsensusCount (st : State) : Int :=
  st.minerAboveMinPowerCount

structure MinerPowerReturn where
  rawBytePower : Int
  qualityAdjPower : Int
  deriving DecidableEq

/-- `MinerPower` for the miner with actor ID `miner`. `State::miner_power` (not in `src/`) is
taken to be the claims map's entry for the ID address. -/
def minerPower (st : State) (miner : Nat) : Except ActorError MinerPowerReturn :=
  match st.claims.lookup (.id miner) with
  | some claim => .ok ⟨claim.rawBytePower, claim.qualityAdjPower⟩
  | none => .error (.notFound "miner not found")

/-- A message to the power actor other than the cron tick. -/
inductive Call
  | createMiner (params : CreateMinerParams) (exec : Except ActorError ExecReturn)
  | updateClaimedPower (caller : Caller) (params : UpdateClaimedPowerParams)
  | enrollCronEvent (caller : Caller) (params : EnrollCronEventParams)
  | updatePledgeTotal (caller : Caller) (params : UpdatePledgeTotalParams)

def Call.exec (policy : Policy) : Call → PowerM Unit
  | .createMiner params exec => do let _ ← Power.createMiner policy params exec
  | .updateClaimedPower caller params => Power.updateClaimedPower policy caller params
  | .enrollCronEvent caller params => Power.enrollCronEvent caller params
  | .updatePledgeTotal caller params => Power.updatePledgeTotal caller params

/-- The history of a run: each committed enrollment, each committed tick with the claims it
collected against and the events its loop sent `OnDeferredCronEvent` for, and the ID address
of each committed `CreateMiner`. -/
inductive CronAction
  | enrolled (eventEpoch : Int) (event : CronEvent)
  | ticked (epoch : Int) (claims : AList (fun _ : Address => Claim)) (sent : List CronEvent)
  | created (idAddress : Address)

def Call.cronLog : Call → List CronAction
  | .createMiner _ (.ok r) => [.created r.idAddress]
  | .enrollCronEvent caller params => [.enrolled params.eventEpoch ⟨caller.address, params.payload⟩]
  | _ => []

/-- A message is atomic: a failed one leaves no write behind. -/
def applyCall (policy : Policy) (st : State) (c : Call) : State × List CronAction :=
  match c.exec policy st with
  | .ok _ st' => (st', c.cronLog)
  | .error _ _ => (st, [])

def applyCalls (policy : Policy) : State → List Call → State × List CronAction
  | st, [] => (st, [])
  | st, c :: cs =>
    let (st₁, log₁) := applyCall policy st c
    let (st₂, log₂) := applyCalls policy st₁ cs
    (st₂, log₁ ++ log₂)

/-- A miner's `OnDeferredCronEvent`, as the power actor sees it: on success the calls it made
to the power actor, on failure nothing, its writes being rolled back. -/
inductive CallbackOutcome
  | ok (calls : List Call)
  | err (e : ActorError)

/-- The collection loop over `first_cron_epoch..=rt_epoch`: `n` epochs from `epoch`. An
epoch with events is cleared; its events whose miner has a claim are kept, in order. -/
def collectLoop (claims : AList (fun _ : Address => Claim)) :
    Nat → Int → AList (fun _ : Int => List CronEvent) →
      AList (fun _ : Int => List CronEvent) × List CronEvent
  | 0, _, events => (events, [])
  | n + 1, epoch, events =>
    let epochEvents := loadCronEvents events epoch
    if epochEvents.isEmpty then collectLoop claims n (epoch + 1) events
    else
      let kept := epochEvents.filter fun evt => (claims.lookup evt.minerAddr).isSome
      let (events', rest) := collectLoop claims n (epoch + 1) (events.erase epoch)
      (events', kept ++ rest)

/-- The first transaction of `process_deferred_cron_events`. -/
def collectCronEvents (rtEpoch : Int) : PowerM (List CronEvent) := modifyGet fun st =>
  let (events, cronEvents) :=
    collectLoop st.claims (rtEpoch + 1 - st.firstCronEpoch).toNat st.firstCronEpoch
      st.cronEventQueue
  (cronEvents, { st with cronEventQueue := events, firstCronEpoch := rtEpoch + 1 })

/-- What the callback loop leaves: the state, the events it sent `OnDeferredCronEvent` for,
`failed_miner_crons`, and the history of the calls the callbacks made. -/
structure CallbackRun where
  state : State
  sent : List CronEvent
  failed : List Address
  log : List CronAction

/-- The callback loop: one `OnDeferredCronEvent` per collected event, answered by the
miners in order (a missing answer is a success with no calls). -/
def sendCallbacks (policy : Policy) :
    List CronEvent → List CallbackOutcome → State → CallbackRun
  | [], _, st => ⟨st, [], [], []⟩
  | event :: rest, outcomes, st =>
    match outcomes.headD (.ok []) with
    | .ok calls =>
      let (st₁, log₁) := applyCalls policy st calls
      let r := sendCallbacks policy rest outcomes.tail st₁
      ⟨r.state, event :: r.sent, r.failed, log₁ ++ r.log⟩
    | .err _ =>
      let r := sendCallbacks policy rest outcomes.tail st
      ⟨r.state, event :: r.sent, event.minerAddr :: r.failed, r.log⟩

/-- The failure transaction: each failed miner's claim is deleted and `miner_count`
lowered, once per entry of `failed_miner_crons`; a failed deletion is skipped. -/
def removeFailedMiners (policy : Policy) : List Address → State → State
  | [], st => st
  | minerAddr :: rest, st =>
    match deleteClaim policy minerAddr st with
    | .error _ st' => removeFailedMiners policy rest st'
    | .ok _ st' => removeFailedMiners policy rest { st' with minerCount := st'.minerCount - 1 }

/-- The miners the failure transaction logs as `failed to delete claim for miner` and skips. -/
def skippedDeletions (policy : Policy) : List Address → State → List Address
  | [], _ => []
  | minerAddr :: rest, st =>
    match deleteClaim policy minerAddr st with
    | .error _ st' => minerAddr :: skippedDeletions policy rest st'
    | .ok _ st' => skippedDeletions policy rest { st' with minerCount := st'.minerCount - 1 }

def processDeferredCronEvents (policy : Policy) (rtEpoch : Int)
    (callbacks : List CallbackOutcome) : PowerM (List CronEvent × List CronAction) := do
  let cronEvents ← transaction (collectCronEvents rtEpoch)
  let called ← modifyGet fun st =>
    let called := sendCallbacks policy cronEvents callbacks st
    (called, called.state)
  if !called.failed.isEmpty then
    modify (removeFailedMiners policy called.failed)
  pure (called.sent, called.log)

/-- The snapshot transaction of `on_epoch_tick_end`. -/
def snapshotTotals (policy : Policy) : PowerM Int := do
  let st ← get
  let (rawBytePower, qaPower) := st.currentTotalPower policy
  set { st with thisEpochPledgeCollateral := st.totalPledgeCollateral,
                thisEpochQualityAdjPower := qaPower,
                thisEpochRawBytePower := rawBytePower }
  -- cron runs every epoch
  updateSmoothedEstimate policy 1
  return (← get).thisEpochRawBytePower

/-- What the runtime and the other actors answer during one tick. -/
structure TickEnv where
  caller : Address
  currEpoch : Int
  thisEpochReward : Except ActorError ThisEpochRewardReturn
  callbacks : List CallbackOutcome
  updateNetworkKpi : Except ActorError Unit

def onEpochTickEnd (policy : Policy) (env : TickEnv) :
    PowerM (List CronEvent × List CronAction) := do
  if env.caller ≠ cronActorAddr then
    throw (.forbidden s!"caller {env.caller} is not the cron actor")
  let _ ← liftSend "failed to check epoch baseline power" env.thisEpochReward
  let out ← processDeferredCronEvents policy env.currEpoch env.callbacks
  let _ ← transaction (snapshotTotals policy)
  liftSend "failed to update network KPI with reward actor" env.updateNetworkKpi
  pure out

inductive Msg
  | call (c : Call)
  | onEpochTickEnd (env : TickEnv)

/-- One top-level message, atomic, with the cron actions it commits. -/
def step (policy : Policy) (st : State) : Msg → State × List CronAction
  | .call c => applyCall policy st c
  | .onEpochTickEnd env =>
    match onEpochTickEnd policy env st with
    | .ok (sent, log) st' => (st', .ticked env.currEpoch st.claims sent :: log)
    | .error _ _ => (st, [])

def run (policy : Policy) : State → List Msg → State × List CronAction
  | st, [] => (st, [])
  | st, m :: ms =>
    let (st₁, log₁) := step policy st m
    let (st₂, log₂) := run policy st₁ ms
    (st₂, log₁ ++ log₂)

end BuiltinActors.Power
