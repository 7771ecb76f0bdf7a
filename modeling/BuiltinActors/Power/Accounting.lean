import BuiltinActors.Power.Claims
import BuiltinActors.Power.Tick

namespace BuiltinActors.Power

/-- A claim the ledger can hold: no negative power, and a proof type with a consensus minimum. -/
def ValidClaim (policy : Policy) (c : Claim) : Prop :=
  0 ≤ c.rawBytePower ∧ 0 ≤ c.qualityAdjPower ∧
    ∃ p, policy.consensusMinerMinPower c.windowPoStProofType = .ok p

/-- The power ledger agrees with the claims map: the committed totals are sums over all claims,
the consensus totals and the above-minimum count sums over the claims that meet the minimum,
every claim is valid, and the miner count is at most the number of claims. -/
structure Accounting (policy : Policy) (st : State) : Prop where
  bytesCommitted : st.totalBytesCommitted = claimsSum Claim.rawBytePower st.claims
  qaBytesCommitted : st.totalQABytesCommitted = claimsSum Claim.qualityAdjPower st.claims
  rawBytePower : st.totalRawBytePower = claimsSum (share policy Claim.rawBytePower) st.claims
  qualityAdjPower :
    st.totalQualityAdjPower = claimsSum (share policy Claim.qualityAdjPower) st.claims
  aboveMinCount : st.minerAboveMinPowerCount = claimsSum (share policy fun _ => 1) st.claims
  minerCount_le : st.minerCount ≤ claimsSum (fun _ => 1) st.claims
  valid : ∀ a c, st.claims.lookup a = some c → ValidClaim policy c

/-- Every minimum the policy gives is positive, so a claim with no power meets none. -/
def PositiveMinimum (policy : Policy) : Prop :=
  ∀ proof p, policy.consensusMinerMinPower proof = .ok p → 0 < p

namespace Accounting

variable {policy : Policy} {st st' : State}

theorem initial (policy : Policy) : Accounting policy (State.new policy) :=
  ⟨rfl, rfl, rfl, rfl, rfl, Int.le_refl 0, fun _ _ h => by cases h⟩

theorem of_ledger (h : Accounting policy st) (same : st'.withLedger st = st') :
    Accounting policy st' :=
  same ▸ ⟨h.1, h.2, h.3, h.4, h.5, h.6, h.7⟩

theorem valid_insert (h : Accounting policy st) {a : Address} {new : Claim}
    (valid : ValidClaim policy new) :
    ∀ b c, (st.claims.insert a new).lookup b = some c → ValidClaim policy c := by
  intro b c hc
  by_cases hb : b = a
  · subst hb
    rw [AList.lookup_insert, Option.some.injEq] at hc
    exact hc ▸ valid
  · rw [AList.lookup_insert_ne hb] at hc
    exact h.valid b c hc

theorem addToClaim (h : Accounting policy st) {miner : Address} {power qaPower : Int} {u : Unit}
    (hok : Power.addToClaim policy miner power qaPower st = .ok u st') :
    Accounting policy st' := by
  obtain ⟨old, hl, ⟨p, hp⟩, raw, qa, claims, count, bytes, qaBytes, rawPower, qaPower',
    above⟩ := addToClaim_ok hok
  have moved : ∀ {f : Claim → Int} {x x' : Int}, x = claimsSum f st.claims →
      x' + f old = x + f { old with rawBytePower := old.rawBytePower + power,
                                    qualityAdjPower := old.qualityAdjPower + qaPower } →
      x' = claimsSum f st'.claims := by
    intro f x x' hx hmove
    have := claimsSum_insert_of_lookup f st.claims miner hl
      { old with rawBytePower := old.rawBytePower + power,
                 qualityAdjPower := old.qualityAdjPower + qaPower }
    rw [claims]
    omega
  refine ⟨moved h.bytesCommitted (by dsimp only; omega),
    moved h.qaBytesCommitted (by dsimp only; omega), moved h.rawBytePower rawPower,
    moved h.qualityAdjPower qaPower', moved h.aboveMinCount above, ?_, ?_⟩
  · have := claimsSum_insert_of_lookup (fun _ => 1) st.claims miner hl
      { old with rawBytePower := old.rawBytePower + power,
                 qualityAdjPower := old.qualityAdjPower + qaPower }
    have := h.minerCount_le
    rw [claims, count]
    omega
  · rw [claims]
    exact h.valid_insert ⟨raw, qa, p, hp⟩

theorem createMiner (h : Accounting policy st) {params : CreateMinerParams}
    {exec : Except ActorError ExecReturn} {r : ExecReturn}
    (fresh : st.claims.lookup r.idAddress = none)
    (hok : Power.createMiner policy params exec st = .ok r st') :
    Accounting policy st' := by
  obtain ⟨-, ⟨p, hp⟩, rfl⟩ := createMiner_ok hok
  have added : ∀ {f : Claim → Int} {x x' : Int}, x = claimsSum f st.claims →
      x' = x + f ⟨params.windowPoStProofType, 0, 0⟩ →
      x' = claimsSum f (st.claims.insert r.idAddress ⟨params.windowPoStProofType, 0, 0⟩) := by
    intro f x x' hx hadd
    rw [claimsSum_insert_of_lookup_none f st.claims r.idAddress fresh, ← hx, hadd]
  refine ⟨added h.bytesCommitted (Int.add_zero _).symm,
    added h.qaBytesCommitted (Int.add_zero _).symm,
    added h.rawBytePower (by simp only [share, ite_self, Int.add_zero]),
    added h.qualityAdjPower (by simp only [share, ite_self, Int.add_zero]),
    added h.aboveMinCount rfl, ?_, h.valid_insert ⟨Int.le_refl 0, Int.le_refl 0, p, hp⟩⟩
  have := h.minerCount_le
  rw [claimsSum_insert_of_lookup_none (fun _ => 1) st.claims r.idAddress fresh]
  dsimp only
  omega

theorem erase_zero (h : Accounting policy st) {miner : Address} {z : Claim}
    (hz : st.claims.lookup miner = some z) (raw : z.rawBytePower = 0)
    (qa : z.qualityAdjPower = 0) (below : meetsMin policy z = false) :
    Accounting policy
      { st with claims := st.claims.erase miner, minerCount := st.minerCount - 1 } := by
  have erased : ∀ {f : Claim → Int} {x : Int}, x = claimsSum f st.claims → f z = 0 →
      x = claimsSum f (st.claims.erase miner) := by
    intro f x hx hzero
    have := claimsSum_erase f st.claims miner
    rw [hz, Option.map_some', Option.getD_some, hzero] at this
    omega
  have noShare : ∀ f : Claim → Int, share policy f z = 0 := by
    intro f
    simp only [share, below, Bool.false_eq_true, ↓reduceIte]
  refine ⟨erased h.bytesCommitted raw, erased h.qaBytesCommitted qa,
    erased h.rawBytePower (noShare _), erased h.qualityAdjPower (noShare _),
    erased h.aboveMinCount (noShare _), ?_, fun a c hc => ?_⟩
  · have count := claimsSum_erase (fun _ => 1) st.claims miner
    rw [hz, Option.map_some', Option.getD_some] at count
    have := h.minerCount_le
    dsimp only
    omega
  · by_cases ha : a = miner
    · subst ha
      rw [AList.lookup_erase] at hc
      cases hc
    · rw [AList.lookup_erase_ne ha] at hc
      exact h.valid a c hc

theorem addToClaim_toZero (pos : PositiveMinimum policy) (h : Accounting policy st)
    {miner : Address} {c : Claim} (hl : st.claims.lookup miner = some c) :
    ∃ st₁, Power.addToClaim policy miner (-c.rawBytePower) (-c.qualityAdjPower) st = .ok () st₁ ∧
      Accounting policy st₁ ∧
      st₁.claims = st.claims.insert miner
        { c with rawBytePower := c.rawBytePower + -c.rawBytePower,
                 qualityAdjPower := c.qualityAdjPower + -c.qualityAdjPower } ∧
      meetsMin policy
        { c with rawBytePower := c.rawBytePower + -c.rawBytePower,
                 qualityAdjPower := c.qualityAdjPower + -c.qualityAdjPower } = false := by
  obtain ⟨-, -, p, hp⟩ := h.valid miner c hl
  have below : meetsMin policy
      { c with rawBytePower := c.rawBytePower + -c.rawBytePower,
               qualityAdjPower := c.qualityAdjPower + -c.qualityAdjPower } = false := by
    simp only [meetsMin, hp, Int.add_right_neg, ← not_lt, pos _ _ hp, not_true_eq_false,
      decide_False]
  have counted := le_claimsSum (share policy fun _ => 1) st.claims miner
    (fun _ _ => share_nonneg policy (by show (0 : Int) ≤ 1; decide)) hl
  have count := h.aboveMinCount
  have zeroShare : share policy (fun _ => 1)
      { c with rawBytePower := c.rawBytePower + -c.rawBytePower,
               qualityAdjPower := c.qualityAdjPower + -c.qualityAdjPower } = 0 := by
    simp only [share, below, Bool.false_eq_true, ↓reduceIte]
  obtain ⟨st₁, h₁⟩ := addToClaim_ok_of hl hp (Int.add_right_neg _).symm.le
    (Int.add_right_neg _).symm.le (by rw [zeroShare]; omega)
  obtain ⟨old, hold, -, -, -, claims₁, -⟩ := addToClaim_ok h₁
  rw [hl, Option.some.injEq] at hold
  subst hold
  exact ⟨st₁, h₁, h.addToClaim h₁, claims₁, below⟩

/-- With positive minimums, deleting a miner's claim commits, whether the miner had a claim or
not, and the ledger with the miner count lowered by one keeps the accounting; the miner has no
claim after it, and no claim appears. -/
theorem deleteClaim (pos : PositiveMinimum policy) (h : Accounting policy st) (miner : Address) :
    ∃ st', Power.deleteClaim policy miner st = .ok () st' ∧
      Accounting policy { st' with minerCount := st'.minerCount - 1 } ∧
      st'.claims.lookup miner = none ∧
      ∀ a, st.claims.lookup a = none → st'.claims.lookup a = none := by
  cases hl : st.claims.lookup miner with
  | none =>
    refine ⟨st, by simp only [Power.deleteClaim, bind_apply, get_apply, hl, pure_apply], ?_, hl,
      fun _ => id⟩
    exact ⟨h.1, h.2, h.3, h.4, h.5, Int.le_trans (Int.sub_le_self _ (by decide)) h.6, h.7⟩
  | some c =>
    obtain ⟨st₁, h₁, acc₁, claims₁, below⟩ := h.addToClaim_toZero pos hl
    refine ⟨{ st₁ with claims := st₁.claims.erase miner },
      by simp only [Power.deleteClaim, bind_apply, get_apply, hl, h₁, modify_apply],
      acc₁.erase_zero (by rw [claims₁, AList.lookup_insert]) (Int.add_right_neg _)
        (Int.add_right_neg _) below,
      AList.lookup_erase _ _, fun a ha => ?_⟩
    have hne : a ≠ miner := by rintro rfl; rw [hl] at ha; cases ha
    show (st₁.claims.erase miner).lookup a = none
    rw [AList.lookup_erase_ne hne, claims₁, AList.lookup_insert_ne hne, ha]

theorem removeFailedMiners (pos : PositiveMinimum policy) (failed : List Address)
    (h : Accounting policy st) :
    Accounting policy (Power.removeFailedMiners policy failed st) ∧
      ∀ a, st.claims.lookup a = none →
        (Power.removeFailedMiners policy failed st).claims.lookup a = none := by
  induction failed generalizing st with
  | nil => exact ⟨h, fun _ => id⟩
  | cons miner rest ih =>
    obtain ⟨st', deleted, acc, -, kept⟩ := h.deleteClaim pos miner
    obtain ⟨acc', kept'⟩ := ih acc
    unfold Power.removeFailedMiners
    rw [deleted]
    exact ⟨acc', fun a ha => kept' a (kept a ha)⟩

theorem valid_entries (h : Accounting policy st) : ∀ e ∈ st.claims.entries, ValidClaim policy e.2 :=
  fun e he => h.valid e.1 e.2 (AList.mem_lookup_iff.mpr he)

theorem totals (h : Accounting policy st) :
    0 ≤ st.totalRawBytePower ∧ st.totalRawBytePower ≤ st.totalBytesCommitted ∧
      0 ≤ st.totalQualityAdjPower ∧ st.totalQualityAdjPower ≤ st.totalQABytesCommitted := by
  have valid := h.valid_entries
  rw [h.rawBytePower, h.bytesCommitted, h.qualityAdjPower, h.qaBytesCommitted]
  exact ⟨claimsSum_nonneg _ _ fun e he => share_nonneg policy (valid e he).1,
    claimsSum_le _ _ fun e he => share_le policy (valid e he).1,
    claimsSum_nonneg _ _ fun e he => share_nonneg policy (valid e he).2.1,
    claimsSum_le _ _ fun e he => share_le policy (valid e he).2.1⟩

/-- What the read methods answer of a ledger in agreement with its claims: `MinerCount` is at
most the number of claims, `MinerConsensusCount` the number of claims that meet the consensus
minimum, and `MinerPower` a power between zero and the committed totals. -/
theorem queries (h : Accounting policy st) :
    minerCount st ≤ st.claims.entries.length ∧
      minerConsensusCount st = (st.claims.entries.filter fun e => meetsMin policy e.2).length ∧
      ∀ miner r, minerPower st miner = .ok r →
        0 ≤ r.rawBytePower ∧ r.rawBytePower ≤ st.totalBytesCommitted ∧
          0 ≤ r.qualityAdjPower ∧ r.qualityAdjPower ≤ st.totalQABytesCommitted := by
  refine ⟨(claimsSum_one st.claims).symm ▸ h.minerCount_le,
    h.aboveMinCount.trans (claimsSum_share_one st.claims policy), fun miner r hr => ?_⟩
  unfold minerPower at hr
  split at hr
  next c hc =>
    cases hr
    have valid := h.valid_entries
    rw [h.bytesCommitted, h.qaBytesCommitted]
    exact ⟨(h.valid _ c hc).1, le_claimsSum _ _ _ (fun e he => (valid e he).1) hc,
      (h.valid _ c hc).2.1, le_claimsSum _ _ _ (fun e he => (valid e he).2.1) hc⟩
  next => cases hr

end Accounting

def CronAction.createdAddress : CronAction → Option Address
  | .created a => some a
  | _ => none

/-- The ID addresses the init actor handed to the `CreateMiner` calls a history commits, in
order; a call that fails, or whose tick is rolled back, hands out none. -/
def createdAddresses (L : List CronAction) : List Address :=
  L.filterMap CronAction.createdAddress

@[simp]
theorem createdAddresses_append (L M : List CronAction) :
    createdAddresses (L ++ M) = createdAddresses L ++ createdAddresses M :=
  List.filterMap_append _ _ _

/-- The accounting holds, and the addresses still to be handed out are distinct and have no
claim yet. -/
structure LedgerInv (policy : Policy) (st : State) (ids : List Address) : Prop where
  accounting : Accounting policy st
  nodup : ids.Nodup
  fresh : ∀ a ∈ ids, st.claims.lookup a = none

theorem LedgerInv.drop {policy : Policy} {st : State} {xs ids : List Address}
    (h : LedgerInv policy st (xs ++ ids)) : LedgerInv policy st ids :=
  ⟨h.accounting, h.nodup.of_append_right, fun a ha => h.fresh a (List.mem_append_right xs ha)⟩

theorem LedgerInv.start (policy : Policy) {ids : List Address} (distinct : ids.Nodup) :
    LedgerInv policy (State.new policy) (ids ++ []) :=
  ⟨Accounting.initial policy, by rwa [List.append_nil], fun _ _ => rfl⟩

/-- A committed call keeps the accounting when the address it hands out is new, and writes a
claim at no other address. -/
theorem applyCall_accounting {policy : Policy} {st : State} (h : Accounting policy st) (c : Call)
    (fresh : ∀ a ∈ createdAddresses (applyCall policy st c).2, st.claims.lookup a = none) :
    Accounting policy (applyCall policy st c).1 ∧
      ∀ a, a ∉ createdAddresses (applyCall policy st c).2 → st.claims.lookup a = none →
        (applyCall policy st c).1.claims.lookup a = none := by
  cases c with
  | createMiner params exec =>
    unfold applyCall Call.exec at fresh ⊢
    cases hc : createMiner policy params exec st with
    | error e s =>
      simp only [bind_apply, hc]
      exact ⟨h, fun _ _ => id⟩
    | ok r s =>
      simp only [bind_apply, hc, pure_apply] at fresh ⊢
      obtain ⟨rfl, -, rfl⟩ := createMiner_ok hc
      refine ⟨h.createMiner (fresh r.idAddress (List.mem_singleton_self _)) hc,
        fun a ha hn => ?_⟩
      have hne : a ≠ r.idAddress := fun e => ha (e ▸ List.mem_singleton_self _)
      show (st.claims.insert r.idAddress _).lookup a = none
      rw [AList.lookup_insert_ne hne, hn]
  | updateClaimedPower caller params =>
    unfold applyCall Call.exec
    split
    · rename_i u s hs
      have added := updateClaimedPower_ok hs
      obtain ⟨old, hold, -, -, -, claims, -⟩ := addToClaim_ok added
      refine ⟨h.addToClaim added, fun a _ hn => ?_⟩
      have hne : a ≠ caller.address := by rintro rfl; rw [hn] at hold; cases hold
      rw [claims, AList.lookup_insert_ne hne, hn]
    · exact ⟨h, fun _ _ => id⟩
  | enrollCronEvent caller params | updatePledgeTotal caller params =>
    unfold applyCall
    simp only [Call.exec, enrollCronEvent_eq, appendCronEvent_eq, updatePledgeTotal_eq]
    split
    · rename_i heq
      split_ifs at heq
      cases heq
      exact ⟨h.of_ledger rfl, fun _ _ => id⟩
    · exact ⟨h, fun _ _ => id⟩

theorem applyCall_ledgerInv {policy : Policy} {st : State} (c : Call) {ids : List Address}
    (h : LedgerInv policy st (createdAddresses (applyCall policy st c).2 ++ ids)) :
    LedgerInv policy (applyCall policy st c).1 ids := by
  obtain ⟨acc, kept⟩ := applyCall_accounting h.accounting c
    fun a ha => h.fresh a (List.mem_append_left ids ha)
  exact ⟨acc, h.nodup.of_append_right, fun a ha =>
    kept a (fun hc => List.disjoint_of_nodup_append h.nodup hc ha)
      (h.fresh a (List.mem_append_right _ ha))⟩

section Consuming

variable (policy : Policy) (J : State → List Address → Prop)
  (hcall : ∀ st c ids, J st (createdAddresses (applyCall policy st c).2 ++ ids) →
    J (applyCall policy st c).1 ids)

include hcall in
theorem applyCalls_consumes (calls : List Call) {st : State} (ids : List Address)
    (h : J st (createdAddresses (applyCalls policy st calls).2 ++ ids)) :
    J (applyCalls policy st calls).1 ids := by
  induction calls generalizing st with
  | nil => exact h
  | cons c calls ih =>
    rw [applyCalls_cons, createdAddresses_append, List.append_assoc] at h
    exact ih (hcall st c _ h)

include hcall in
theorem sendCallbacks_consumes (events : List CronEvent) (outcomes : List CallbackOutcome)
    (st : State) (ids : List Address)
    (h : J st (createdAddresses (sendCallbacks policy events outcomes st).log ++ ids)) :
    J (sendCallbacks policy events outcomes st).state ids := by
  induction events generalizing outcomes st with
  | nil => exact h
  | cons event events ih =>
    cases outcomes with
    | nil => exact ih [] st h
    | cons o os =>
      cases o with
      | ok calls =>
        refine ih os _ (applyCalls_consumes policy J hcall calls _ ?_)
        rw [← List.append_assoc, ← createdAddresses_append]
        exact h
      | err e => exact ih os st h

theorem run_consumes
    (hstep : ∀ st m ids, J st (createdAddresses (step policy st m).2 ++ ids) →
      J (step policy st m).1 ids)
    (ms : List Msg) {st : State} (ids : List Address)
    (h : J st (createdAddresses (run policy st ms).2 ++ ids)) : J (run policy st ms).1 ids := by
  induction ms generalizing st with
  | nil => exact h
  | cons m ms ih =>
    rw [run_cons, createdAddresses_append, List.append_assoc] at h
    exact ih (hstep st m _ h)

end Consuming

/-- A tick keeps the invariant: collecting and the snapshot leave the ledger alone, the
callbacks are calls, and the failure transaction deletes claims. -/
theorem step_ledgerInv {policy : Policy} (pos : PositiveMinimum policy) {st : State} (m : Msg)
    {ids : List Address} (h : LedgerInv policy st (createdAddresses (step policy st m).2 ++ ids)) :
    LedgerInv policy (step policy st m).1 ids := by
  cases m with
  | call c => exact applyCall_ledgerInv c h
  | onEpochTickEnd env =>
    rw [step_onEpochTickEnd] at h ⊢
    split_ifs at h ⊢
    · dsimp only at h ⊢
      rw [snapshotTotals_eq, resultState_ok]
      generalize collectLoop st.claims _ st.firstCronEpoch st.cronEventQueue = collected at h ⊢
      have called := sendCallbacks_consumes policy (LedgerInv policy)
        (fun _ c _ h => applyCall_ledgerInv c h) collected.2 env.callbacks
        { st with cronEventQueue := collected.1, firstCronEpoch := env.currEpoch + 1 } ids
        ⟨h.accounting.of_ledger rfl, h.nodup, h.fresh⟩
      obtain ⟨acc, kept⟩ := called.accounting.removeFailedMiners pos
        (sendCallbacks policy collected.2 env.callbacks _).failed
      exact ⟨acc.of_ledger rfl, called.nodup, fun a ha => kept a (called.fresh a ha)⟩
    · exact h

/-- With positive consensus minimums, and distinct ID addresses for the `CreateMiner` calls that
commit, every run of the power actor from the new state keeps its ledger in agreement with its
claims: the committed totals are the sums of all claims, the consensus totals and the
above-minimum count those of the claims that meet the minimum, and the miner count is at most
the number of claims. -/
theorem run_accounting (policy : Policy) (pos : PositiveMinimum policy) (ms : List Msg)
    (distinct : (createdAddresses (run policy (State.new policy) ms).2).Nodup) :
    Accounting policy (run policy (State.new policy) ms).1 :=
  (run_consumes policy (LedgerInv policy) (fun _ m _ h => step_ledgerInv pos m h) ms []
    (LedgerInv.start policy distinct)).accounting

/-- Two miners created at `f01000` and `f01001`, power claimed by the first, and a tick. -/
def twoMinersRun : List Msg :=
  [.call (.createMiner ⟨0⟩ (.ok ⟨.id 1000, .actor []⟩)),
   .call (.createMiner ⟨0⟩ (.ok ⟨.id 1001, .actor []⟩)),
   .call (.updateClaimedPower ⟨.id 1000, true⟩ ⟨20, 20⟩),
   .onEpochTickEnd ⟨cronActorAddr, 0, .ok ⟨⟨0, 0⟩, 0⟩, [], .ok ()⟩]

theorem run_accounting_twoMiners :
    PositiveMinimum ⟨fun _ => .ok 10, 4, ⟨0, 0⟩, fun e _ _ => e⟩ ∧
      (createdAddresses (run ⟨fun _ => .ok 10, 4, ⟨0, 0⟩, fun e _ _ => e⟩
        (State.new ⟨fun _ => .ok 10, 4, ⟨0, 0⟩, fun e _ _ => e⟩) twoMinersRun).2).Nodup ∧
      Accounting ⟨fun _ => .ok 10, 4, ⟨0, 0⟩, fun e _ _ => e⟩
        (run ⟨fun _ => .ok 10, 4, ⟨0, 0⟩, fun e _ _ => e⟩
          (State.new ⟨fun _ => .ok 10, 4, ⟨0, 0⟩, fun e _ _ => e⟩) twoMinersRun).1 :=
  have pos : PositiveMinimum ⟨fun _ => .ok 10, 4, ⟨0, 0⟩, fun e _ _ => e⟩ :=
    fun _ _ h => by cases h; decide
  ⟨pos, by decide, run_accounting _ pos twoMinersRun (by decide)⟩

/-- With positive minimums and a ledger in agreement with its claims, every `delete_claim` of
the failure transaction returns `Ok`, and afterwards no miner whose callback failed has a claim,
and so no power, left. -/
theorem removeFailedMiners_clears_failed (policy : Policy) (pos : PositiveMinimum policy)
    {st : State} (h : Accounting policy st) (failed : List Address) :
    skippedDeletions policy failed st = [] ∧
      ∀ m ∈ failed, (removeFailedMiners policy failed st).claims.lookup m = none := by
  induction failed generalizing st with
  | nil => exact ⟨rfl, fun m hm => absurd hm (List.not_mem_nil m)⟩
  | cons miner rest ih =>
    obtain ⟨st', deleted, acc, gone, -⟩ := h.deleteClaim pos miner
    unfold skippedDeletions removeFailedMiners
    rw [deleted]
    refine ⟨(ih acc).1, fun m hm => ?_⟩
    rcases List.mem_cons.mp hm with rfl | hm
    · exact (acc.removeFailedMiners pos rest).2 m gone
    · exact (ih acc).2 m hm

/-- After the two-miner run both miners have a claim; when both callbacks fail, both deletions
commit and neither keeps its claim. -/
theorem removeFailedMiners_clears_failed_twoMiners :
    let P : Policy := ⟨fun _ => .ok 10, 4, ⟨0, 0⟩, fun e _ _ => e⟩
    let st := (run P (State.new P) twoMinersRun).1
    PositiveMinimum P ∧ Accounting P st ∧
      (∀ m ∈ [Address.id 1000, .id 1001], (st.claims.lookup m).isSome) ∧
      skippedDeletions P [.id 1000, .id 1001] st = [] ∧
      ∀ m ∈ [Address.id 1000, .id 1001],
        (removeFailedMiners P [.id 1000, .id 1001] st).claims.lookup m = none :=
  have pos : PositiveMinimum ⟨fun _ => .ok 10, 4, ⟨0, 0⟩, fun e _ _ => e⟩ :=
    fun _ _ h => by cases h; decide
  have acc := (run_consumes _ (LedgerInv _) (fun _ m _ h => step_ledgerInv pos m h) twoMinersRun
    [] (LedgerInv.start _ (by decide))).accounting
  ⟨pos, acc, by decide, removeFailedMiners_clears_failed _ pos acc _⟩

/-- With positive consensus minimums and distinct ID addresses for the `CreateMiner` calls that
commit, after any run `MinerCount` is at most the number of claims, `MinerConsensusCount` is
the number of claims that meet the consensus minimum, and `MinerPower` answers for each miner a
power between zero and the committed totals. -/
theorem run_minerQueries (policy : Policy) (pos : PositiveMinimum policy) (ms : List Msg)
    (distinct : (createdAddresses (run policy (State.new policy) ms).2).Nodup) :
    let st := (run policy (State.new policy) ms).1
    minerCount st ≤ st.claims.entries.length ∧
      minerConsensusCount st = (st.claims.entries.filter fun e => meetsMin policy e.2).length ∧
      ∀ miner r, minerPower st miner = .ok r →
        0 ≤ r.rawBytePower ∧ r.rawBytePower ≤ st.totalBytesCommitted ∧
          0 ≤ r.qualityAdjPower ∧ r.qualityAdjPower ≤ st.totalQABytesCommitted :=
  (run_consumes policy (LedgerInv policy) (fun _ m _ h => step_ledgerInv pos m h) ms []
    (LedgerInv.start policy distinct)).accounting.queries

theorem run_minerQueries_twoMiners :
    PositiveMinimum ⟨fun _ => .ok 10, 4, ⟨0, 0⟩, fun e _ _ => e⟩ ∧
      (createdAddresses (run ⟨fun _ => .ok 10, 4, ⟨0, 0⟩, fun e _ _ => e⟩
        (State.new ⟨fun _ => .ok 10, 4, ⟨0, 0⟩, fun e _ _ => e⟩) twoMinersRun).2).Nodup ∧
      let st := (run ⟨fun _ => .ok 10, 4, ⟨0, 0⟩, fun e _ _ => e⟩
        (State.new ⟨fun _ => .ok 10, 4, ⟨0, 0⟩, fun e _ _ => e⟩) twoMinersRun).1
      minerCount st ≤ st.claims.entries.length ∧
        minerConsensusCount st =
          (st.claims.entries.filter fun e =>
            meetsMin ⟨fun _ => .ok 10, 4, ⟨0, 0⟩, fun e _ _ => e⟩ e.2).length ∧
        ∀ miner r, minerPower st miner = .ok r →
          0 ≤ r.rawBytePower ∧ r.rawBytePower ≤ st.totalBytesCommitted ∧
            0 ≤ r.qualityAdjPower ∧ r.qualityAdjPower ≤ st.totalQABytesCommitted :=
  have pos : PositiveMinimum ⟨fun _ => .ok 10, 4, ⟨0, 0⟩, fun e _ _ => e⟩ :=
    fun _ _ h => by cases h; decide
  ⟨pos, by decide, run_minerQueries _ pos twoMinersRun (by decide)⟩

/-- After the two-miner run, `f01000` has the power it claimed and is the one miner above the
minimum. -/
example :
    let st := (run ⟨fun _ => .ok 10, 4, ⟨0, 0⟩, fun e _ _ => e⟩
      (State.new ⟨fun _ => .ok 10, 4, ⟨0, 0⟩, fun e _ _ => e⟩) twoMinersRun).1
    minerPower st 1000 = .ok ⟨20, 20⟩ ∧ minerConsensusCount st = 1 := by
  decide

theorem step_snapshot_nonneg {policy : Policy} (pos : PositiveMinimum policy) {st : State}
    (m : Msg) {ids : List Address}
    (h : LedgerInv policy st (createdAddresses (step policy st m).2 ++ ids))
    (nonneg : 0 ≤ st.thisEpochRawBytePower ∧ 0 ≤ st.thisEpochQualityAdjPower) :
    0 ≤ (step policy st m).1.thisEpochRawBytePower ∧
      0 ≤ (step policy st m).1.thisEpochQualityAdjPower := by
  cases m with
  | call c =>
    have same := applyCall_currentTotalPower policy st c
    simp only [currentTotalPower, CurrentTotalPowerReturn.mk.injEq] at same
    rw [step_call, same.1, same.2.1]
    exact nonneg
  | onEpochTickEnd env =>
    have inv := step_ledgerInv pos (.onEpochTickEnd env) h
    rw [step_onEpochTickEnd] at inv ⊢
    split_ifs at inv ⊢
    · dsimp only at inv ⊢
      rw [snapshotTotals_eq, resultState_ok] at inv ⊢
      have totals := inv.accounting.totals
      dsimp only at totals ⊢
      unfold State.currentTotalPower
      split <;> omega
    · exact nonneg

/-- With positive consensus minimums and distinct ID addresses for the `CreateMiner` calls that
commit, the network power the actor reports, `NetworkRawPower` and the quality-adjusted power
of `CurrentTotalPower`, is never negative. -/
theorem run_networkPower_nonneg (policy : Policy) (pos : PositiveMinimum policy)
    (ms : List Msg) (distinct : (createdAddresses (run policy (State.new policy) ms).2).Nodup) :
    0 ≤ networkRawPower (run policy (State.new policy) ms).1 ∧
      0 ≤ (currentTotalPower (run policy (State.new policy) ms).1).qualityAdjPower := by
  exact (run_consumes policy (fun st ids => LedgerInv policy st ids ∧
      0 ≤ st.thisEpochRawBytePower ∧ 0 ≤ st.thisEpochQualityAdjPower)
    (fun _ m _ h => ⟨step_ledgerInv pos m h.1, step_snapshot_nonneg pos m h.1 h.2⟩) ms []
    ⟨LedgerInv.start policy distinct, Int.le_refl 0, Int.le_refl 0⟩).2

theorem run_networkPower_nonneg_twoMiners :
    PositiveMinimum ⟨fun _ => .ok 10, 4, ⟨0, 0⟩, fun e _ _ => e⟩ ∧
      (createdAddresses (run ⟨fun _ => .ok 10, 4, ⟨0, 0⟩, fun e _ _ => e⟩
        (State.new ⟨fun _ => .ok 10, 4, ⟨0, 0⟩, fun e _ _ => e⟩) twoMinersRun).2).Nodup ∧
      0 ≤ networkRawPower (run ⟨fun _ => .ok 10, 4, ⟨0, 0⟩, fun e _ _ => e⟩
        (State.new ⟨fun _ => .ok 10, 4, ⟨0, 0⟩, fun e _ _ => e⟩) twoMinersRun).1 ∧
      0 ≤ (currentTotalPower (run ⟨fun _ => .ok 10, 4, ⟨0, 0⟩, fun e _ _ => e⟩
        (State.new ⟨fun _ => .ok 10, 4, ⟨0, 0⟩, fun e _ _ => e⟩)
          twoMinersRun).1).qualityAdjPower :=
  have pos : PositiveMinimum ⟨fun _ => .ok 10, 4, ⟨0, 0⟩, fun e _ _ => e⟩ :=
    fun _ _ h => by cases h; decide
  ⟨pos, by decide, run_networkPower_nonneg _ pos twoMinersRun (by decide)⟩

/-- The network power a claims map stands for, raw and quality-adjusted: the totals of all
claims while fewer than `consensus_miner_min_miners` of them meet the consensus minimum, and
after that the totals of those that do. -/
def claimedNetworkPower (policy : Policy) (claims : AList (fun _ : Address => Claim)) :
    Int × Int :=
  if ((claims.entries.filter fun e => meetsMin policy e.2).length : Int) <
      policy.consensusMinerMinMiners then
    (claimsSum Claim.rawBytePower claims, claimsSum Claim.qualityAdjPower claims)
  else
    (claimsSum (share policy Claim.rawBytePower) claims,
      claimsSum (share policy Claim.qualityAdjPower) claims)

theorem Accounting.currentTotalPower_eq {policy : Policy} {st : State}
    (h : Accounting policy st) : st.currentTotalPower policy = claimedNetworkPower policy st.claims := by
  unfold State.currentTotalPower claimedNetworkPower
  rw [h.aboveMinCount, claimsSum_share_one, h.bytesCommitted, h.qaBytesCommitted, h.rawBytePower,
    h.qualityAdjPower]

theorem step_snapshot (policy : Policy) (st : State) (env : TickEnv)
    (commits : env.caller = cronActorAddr ∧ env.thisEpochReward.isOk ∧ env.updateNetworkKpi.isOk) :
    ((step policy st (.onEpochTickEnd env)).1.thisEpochRawBytePower,
        (step policy st (.onEpochTickEnd env)).1.thisEpochQualityAdjPower) =
      (step policy st (.onEpochTickEnd env)).1.currentTotalPower policy ∧
      (step policy st (.onEpochTickEnd env)).1.thisEpochPledgeCollateral =
        (step policy st (.onEpochTickEnd env)).1.totalPledgeCollateral := by
  rw [step_onEpochTickEnd, if_pos commits]
  dsimp only
  rw [snapshotTotals_eq, resultState_ok]
  exact ⟨rfl, rfl⟩

theorem run_append_singleton (policy : Policy) (st : State) (ms : List Msg) (m : Msg) :
    (run policy st (ms ++ [m])).1 = (step policy (run policy st ms).1 m).1 := by
  rw [run_append, run_singleton]

theorem LedgerInv.start_append_singleton (policy : Policy) {ms : List Msg} {m : Msg}
    (distinct : (createdAddresses (run policy (State.new policy) (ms ++ [m])).2).Nodup) :
    LedgerInv policy (State.new policy)
      (createdAddresses (run policy (State.new policy) ms).2 ++
        (createdAddresses (step policy (run policy (State.new policy) ms).1 m).2 ++ [])) := by
  have start := LedgerInv.start policy distinct
  rwa [run_append, run_singleton, createdAddresses_append, List.append_assoc] at start

/-- With positive consensus minimums and distinct ID addresses for the `CreateMiner` calls that
commit, a committed tick at the end of any run reports, through `NetworkRawPower` and
`CurrentTotalPower`, exactly the network power its claims stand for, and the pledge total as the
epoch's pledge. -/
theorem run_tick_claimedNetworkPower (policy : Policy) (pos : PositiveMinimum policy)
    (ms : List Msg) (env : TickEnv)
    (distinct : (createdAddresses
      (run policy (State.new policy) (ms ++ [Msg.onEpochTickEnd env])).2).Nodup)
    (commits : env.caller = cronActorAddr ∧ env.thisEpochReward.isOk ∧ env.updateNetworkKpi.isOk) :
    (networkRawPower (run policy (State.new policy) (ms ++ [Msg.onEpochTickEnd env])).1,
        (currentTotalPower
          (run policy (State.new policy) (ms ++ [Msg.onEpochTickEnd env])).1).qualityAdjPower) =
      claimedNetworkPower policy (run policy (State.new policy) (ms ++ [Msg.onEpochTickEnd env])).1.claims ∧
      (currentTotalPower
          (run policy (State.new policy) (ms ++ [Msg.onEpochTickEnd env])).1).pledgeCollateral =
        (run policy (State.new policy) (ms ++ [Msg.onEpochTickEnd env])).1.totalPledgeCollateral := by
  have before := run_consumes policy (LedgerInv policy) (fun _ m _ h => step_ledgerInv pos m h)
    ms _ (LedgerInv.start_append_singleton policy distinct)
  have after := step_ledgerInv pos (.onEpochTickEnd env) before
  obtain ⟨snap, pledge⟩ := step_snapshot policy (run policy (State.new policy) ms).1 env commits
  rw [run_append_singleton, ← after.accounting.currentTotalPower_eq, ← snap]
  exact ⟨rfl, pledge⟩

theorem run_tick_claimedNetworkPower_twoMiners :
    let P : Policy := ⟨fun _ => .ok 10, 4, ⟨0, 0⟩, fun e _ _ => e⟩
    let env : TickEnv := ⟨cronActorAddr, 0, .ok ⟨⟨0, 0⟩, 0⟩, [], .ok ()⟩
    PositiveMinimum P ∧
      (createdAddresses (run P (State.new P) (twoMinersRun.dropLast ++ [Msg.onEpochTickEnd env])).2).Nodup ∧
      (env.caller = cronActorAddr ∧ env.thisEpochReward.isOk ∧ env.updateNetworkKpi.isOk) ∧
      (networkRawPower (run P (State.new P) (twoMinersRun.dropLast ++ [Msg.onEpochTickEnd env])).1,
          (currentTotalPower
            (run P (State.new P) (twoMinersRun.dropLast ++ [Msg.onEpochTickEnd env])).1).qualityAdjPower) =
        claimedNetworkPower P (run P (State.new P) (twoMinersRun.dropLast ++ [Msg.onEpochTickEnd env])).1.claims ∧
      (currentTotalPower
          (run P (State.new P) (twoMinersRun.dropLast ++ [Msg.onEpochTickEnd env])).1).pledgeCollateral =
        (run P (State.new P) (twoMinersRun.dropLast ++ [Msg.onEpochTickEnd env])).1.totalPledgeCollateral :=
  have pos : PositiveMinimum ⟨fun _ => .ok 10, 4, ⟨0, 0⟩, fun e _ _ => e⟩ :=
    fun _ _ h => by cases h; decide
  ⟨pos, by decide, ⟨rfl, rfl, rfl⟩,
    run_tick_claimedNetworkPower _ pos _ _ (by decide) ⟨rfl, rfl, rfl⟩⟩

end BuiltinActors.Power
