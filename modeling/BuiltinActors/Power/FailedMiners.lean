import BuiltinActors.Power.Accounting
import BuiltinActors.Power.CronQueue
import Mathlib.Algebra.Order.BigOperators.Group.List
import Mathlib.Algebra.Order.Ring.Nat
import Mathlib.Data.List.Dedup

namespace BuiltinActors.Power

/-- `failed_miner_crons`: the miners of the sent events whose callback failed, in order; a
missing answer is a success. -/
def failedMinerCrons : List CronEvent → List CallbackOutcome → List Address
  | [], _ => []
  | event :: rest, outcomes =>
    match outcomes.headD (.ok []) with
    | .ok _ => failedMinerCrons rest outcomes.tail
    | .err _ => event.minerAddr :: failedMinerCrons rest outcomes.tail

/-- The miners a committed tick lists in `failed_miner_crons`; none for a call, or for a tick
that fails. -/
def Msg.failures (policy : Policy) (st : State) : Msg → List Address
  | .call _ => []
  | .onEpochTickEnd env =>
    match Power.onEpochTickEnd policy env st with
    | .ok (sent, _) _ => failedMinerCrons sent env.callbacks
    | .error _ _ => []

/-- The failed miners of each message of a run, in order. -/
def failureLog (policy : Policy) : State → List Msg → List (List Address)
  | _, [] => []
  | st, m :: ms => m.failures policy st :: failureLog policy (step policy st m).1 ms

/-- The entries of a failed list that name a miner listed elsewhere in it. -/
def repeats (failed : List Address) : Nat :=
  failed.length - failed.dedup.length

theorem sendCallbacks_failed (policy : Policy) (events : List CronEvent)
    (outcomes : List CallbackOutcome) (st : State) :
    (sendCallbacks policy events outcomes st).failed = failedMinerCrons events outcomes := by
  induction events generalizing outcomes st with
  | nil => rfl
  | cons event rest ih =>
    unfold sendCallbacks failedMinerCrons
    cases outcomes.headD (.ok []) with
    | ok calls => exact ih _ _
    | err e => exact congrArg (event.minerAddr :: ·) (ih _ _)

theorem exists_of_mem_failedMinerCrons {events : List CronEvent}
    {outcomes : List CallbackOutcome} {a : Address} (h : a ∈ failedMinerCrons events outcomes) :
    ∃ event ∈ events, event.minerAddr = a := by
  induction events generalizing outcomes with
  | nil => cases h
  | cons event rest ih =>
    unfold failedMinerCrons at h
    split at h
    · obtain ⟨e, he, rfl⟩ := ih h
      exact ⟨e, List.mem_cons_of_mem _ he, rfl⟩
    · rcases List.mem_cons.mp h with rfl | h
      · exact ⟨event, List.mem_cons_self _ _, rfl⟩
      · obtain ⟨e, he, rfl⟩ := ih h
        exact ⟨e, List.mem_cons_of_mem _ he, rfl⟩

theorem failures_onEpochTickEnd (policy : Policy) (env : TickEnv) (st : State) :
    Msg.failures policy st (.onEpochTickEnd env) =
      if env.caller = cronActorAddr ∧ env.thisEpochReward.isOk ∧ env.updateNetworkKpi.isOk then
        failedMinerCrons (collectLoop st.claims (env.currEpoch + 1 - st.firstCronEpoch).toNat
          st.firstCronEpoch st.cronEventQueue).2 env.callbacks
      else [] := by
  unfold Msg.failures onEpochTickEnd
  by_cases hc : env.caller = cronActorAddr
  · cases hr : env.thisEpochReward <;> cases hk : env.updateNetworkKpi <;>
      simp [hc, hr, hk, liftSend, processDeferredCronEvents_eq, snapshotTotals_eq, transaction,
        Except.isOk, Except.toBool, sendCallbacks_sent]
  · simp [hc]

theorem claimed_of_mem_collectLoop {claims : AList (fun _ : Address => Claim)} {n : Nat}
    {e : Int} {q : AList (fun _ : Int => List CronEvent)} {event : CronEvent}
    (h : event ∈ (collectLoop claims n e q).2) : (claims.lookup event.minerAddr).isSome := by
  rw [collectLoop_snd, List.mem_flatMap] at h
  obtain ⟨_, -, h⟩ := h
  exact (List.mem_filter.mp h).2

/-- What a call does to the claims map and the miner count: nothing; a claim at the address
the init actor handed it, with the count raised by one; or a new claim for a miner that has
one. -/
theorem applyCall_claims (policy : Policy) (st : State) (c : Call) :
    ((applyCall policy st c).1.claims = st.claims ∧
        (applyCall policy st c).1.minerCount = st.minerCount) ∨
      (∃ a ∈ createdAddresses (applyCall policy st c).2, ∃ claim,
        (applyCall policy st c).1.claims = st.claims.insert a claim ∧
        (applyCall policy st c).1.minerCount = st.minerCount + 1) ∨
      (∃ a old new, st.claims.lookup a = some old ∧
        (applyCall policy st c).1.claims = st.claims.insert a new ∧
        (applyCall policy st c).1.minerCount = st.minerCount) := by
  cases c with
  | createMiner params exec =>
    unfold applyCall Call.exec
    cases hc : createMiner policy params exec st with
    | error e s => simp only [bind_apply, hc, and_self, true_or]
    | ok r s =>
      simp only [bind_apply, hc, pure_apply]
      obtain ⟨rfl, -, rfl⟩ := createMiner_ok hc
      exact .inr (.inl ⟨r.idAddress, List.mem_singleton_self _, _, rfl, rfl⟩)
  | updateClaimedPower caller params =>
    unfold applyCall Call.exec
    split
    · rename_i u s hs
      obtain ⟨old, hold, -, -, -, claims, count, -⟩ := addToClaim_ok (updateClaimedPower_ok hs)
      exact .inr (.inr ⟨_, old, _, hold, claims, count⟩)
    · exact .inl ⟨rfl, rfl⟩
  | enrollCronEvent caller params | updatePledgeTotal caller params =>
    unfold applyCall
    simp only [Call.exec, enrollCronEvent_eq, appendCronEvent_eq, updatePledgeTotal_eq]
    split
    · rename_i heq
      split_ifs at heq
      cases heq
      exact .inl ⟨rfl, rfl⟩
    · exact .inl ⟨rfl, rfl⟩

theorem isSome_lookup_insert {claims : AList (fun _ : Address => Claim)} {a b : Address}
    (v : Claim) (has : (claims.lookup a).isSome) : ((claims.insert b v).lookup a).isSome := by
  by_cases hb : a = b
  · rw [hb, AList.lookup_insert]
    rfl
  · rwa [AList.lookup_insert_ne hb]

theorem applyCall_claim_kept (policy : Policy) (st : State) (c : Call) {a : Address}
    (has : (st.claims.lookup a).isSome) : ((applyCall policy st c).1.claims.lookup a).isSome := by
  rcases applyCall_claims policy st c with
    ⟨claims, -⟩ | ⟨b, -, claim, claims, -⟩ | ⟨b, -, new, -, claims, -⟩ <;> rw [claims]
  · exact has
  · exact isSome_lookup_insert claim has
  · exact isSome_lookup_insert new has

theorem applyCall_count (policy : Policy) (st : State) (c : Call)
    (fresh : ∀ a ∈ createdAddresses (applyCall policy st c).2, st.claims.lookup a = none) :
    claimsSum (fun _ => 1) (applyCall policy st c).1.claims - (applyCall policy st c).1.minerCount =
      claimsSum (fun _ => 1) st.claims - st.minerCount := by
  rcases applyCall_claims policy st c with
    ⟨claims, count⟩ | ⟨a, ha, claim, claims, count⟩ | ⟨a, old, new, hl, claims, count⟩ <;>
    rw [claims, count]
  · have added := claimsSum_insert_of_lookup_none (fun _ => 1) st.claims a (fresh a ha) claim
    beta_reduce at added
    omega
  · have moved := claimsSum_insert_of_lookup (fun _ => 1) st.claims a hl new
    beta_reduce at moved
    omega

theorem sendCallbacks_claim_kept (policy : Policy) (events : List CronEvent)
    (outcomes : List CallbackOutcome) {st : State} {a : Address}
    (has : (st.claims.lookup a).isSome) :
    ((sendCallbacks policy events outcomes st).state.claims.lookup a).isSome :=
  sendCallbacks_preserves policy (fun st' _ => (st'.claims.lookup a).isSome)
    (fun st' _ c h => applyCall_claim_kept policy st' c h) events outcomes [] has

theorem removeFailedMiners_lookup_of_not_mem (policy : Policy) {a : Address}
    (failed : List Address) (st : State) (ha : a ∉ failed) :
    (removeFailedMiners policy failed st).claims.lookup a = st.claims.lookup a := by
  induction failed generalizing st with
  | nil => rfl
  | cons m rest ih =>
    have hne : a ≠ m := fun h => ha (h ▸ List.mem_cons_self _ _)
    have hrest : a ∉ rest := fun h => ha (List.mem_cons_of_mem _ h)
    unfold removeFailedMiners
    split
    · rename_i e st' hdel
      rw [ih st' hrest, (deleteClaim_keepsClaimsOnError policy m).claims st e st' hdel]
    · rename_i u st' hdel
      rw [ih _ hrest]
      exact ((deleteClaim_ok hdel).2 a).trans (if_neg hne)

/-- With positive minimums and the ledger in agreement with its claims, every deletion of the
failure transaction commits: it erases the listed miners' claims and lowers `miner_count` once
per entry. -/
theorem removeFailedMiners_erases {policy : Policy} (pos : PositiveMinimum policy)
    (failed : List Address) {st : State} (h : Accounting policy st) :
    (removeFailedMiners policy failed st).minerCount = st.minerCount - failed.length ∧
      ∀ a, (removeFailedMiners policy failed st).claims.lookup a =
        if a ∈ failed then none else st.claims.lookup a := by
  induction failed generalizing st with
  | nil => exact ⟨(Int.sub_zero _).symm, fun _ => rfl⟩
  | cons m rest ih =>
    obtain ⟨st', hdel, acc, -, -⟩ := h.deleteClaim pos m
    obtain ⟨count, erased⟩ := deleteClaim_ok hdel
    obtain ⟨count', erased'⟩ := ih acc
    unfold removeFailedMiners
    rw [hdel]
    refine ⟨?_, fun a => ?_⟩
    · rw [count']
      dsimp only
      rw [count, List.length_cons]
      omega
    · rw [erased']
      show (if a ∈ rest then none else st'.claims.lookup a) = _
      rw [erased a]
      by_cases h₁ : a = m <;> by_cases h₂ : a ∈ rest <;> simp [h₁, h₂]

theorem length_entries_of_erased {claims claims' : AList (fun _ : Address => Claim)}
    {erased : List Address} (held : ∀ a ∈ erased, (claims.lookup a).isSome)
    (lookup : ∀ a, claims'.lookup a = if a ∈ erased then none else claims.lookup a) :
    claims'.entries.length + erased.dedup.length = claims.entries.length := by
  have keys : ∀ d : AList (fun _ : Address => Claim), d.entries.length = d.keys.length :=
    fun d => (List.length_map _ _).symm
  have kept : claims'.keys.Perm (claims.keys.filter fun a => !decide (a ∈ erased)) := by
    refine (List.perm_ext_iff_of_nodup claims'.keys_nodup
      (claims.keys_nodup.filter _)).mpr fun a => ?_
    rw [List.mem_filter, ← AList.mem_keys, ← AList.mem_keys, ← AList.lookup_isSome,
      ← AList.lookup_isSome, lookup]
    by_cases ha : a ∈ erased <;> simp [ha]
  have gone : erased.dedup.Perm (claims.keys.filter fun a => decide (a ∈ erased)) := by
    refine (List.perm_ext_iff_of_nodup (List.nodup_dedup erased)
      (claims.keys_nodup.filter _)).mpr fun a => ?_
    rw [List.mem_dedup, List.mem_filter, ← AList.mem_keys, ← AList.lookup_isSome,
      decide_eq_true_eq]
    exact ⟨fun ha => ⟨held a ha, ha⟩, And.right⟩
  rw [keys, keys, kept.length_eq, gone.length_eq,
    List.length_eq_length_filter_add (fun a => decide (a ∈ erased)) (l := claims.keys)]
  omega

theorem repeats_eq_zero_iff (failed : List Address) : repeats failed = 0 ↔ failed.Nodup := by
  have le := (List.dedup_sublist failed).length_le
  rw [← List.dedup_eq_self]
  constructor
  · intro h
    exact (List.dedup_sublist failed).eq_of_length (by unfold repeats at h; omega)
  · intro h
    unfold repeats
    rw [h, Nat.sub_self]

theorem step_claim_kept (policy : Policy) (st : State) (m : Msg) {a : Address}
    (has : (st.claims.lookup a).isSome) (kept : a ∉ m.failures policy st) :
    ((step policy st m).1.claims.lookup a).isSome := by
  cases m with
  | call c => exact applyCall_claim_kept policy st c has
  | onEpochTickEnd env =>
    rw [failures_onEpochTickEnd] at kept
    rw [step_onEpochTickEnd]
    split_ifs at kept ⊢
    · dsimp only
      rw [snapshotTotals_eq, resultState_ok]
      show ((removeFailedMiners policy _ _).claims.lookup a).isSome
      rw [removeFailedMiners_lookup_of_not_mem policy _ _ (by rwa [sendCallbacks_failed])]
      exact sendCallbacks_claim_kept policy _ _ has
    · exact has

/-- A miner keeps its claim through any run, from any state and under any policy, until a
committed tick lists it in `failed_miner_crons`: no call or callback deletes a claim, and the
failure transaction deletes only the listed miners' claims. -/
theorem run_claim_kept (policy : Policy) (st : State) (ms : List Msg) {miner : Address}
    (has : (st.claims.lookup miner).isSome)
    (never : ∀ failed ∈ failureLog policy st ms, miner ∉ failed) :
    ((run policy st ms).1.claims.lookup miner).isSome := by
  induction ms generalizing st with
  | nil => exact has
  | cons m ms ih =>
    rw [run_cons]
    exact ih _ (step_claim_kept policy st m has (never _ (List.mem_cons_self _ _)))
      fun failed hf => never failed (List.mem_cons_of_mem _ hf)

/-- Miners `f01000` and `f01001` are created; `f01001` enrolls two events for epoch 0 and
fails both callbacks at the tick of epoch 0. -/
def failingRun : List Msg :=
  [.call (.createMiner ⟨0⟩ (.ok ⟨.id 1000, .actor []⟩)),
   .call (.createMiner ⟨0⟩ (.ok ⟨.id 1001, .actor []⟩)),
   .call (.enrollCronEvent ⟨.id 1001, true⟩ ⟨0, []⟩),
   .call (.enrollCronEvent ⟨.id 1001, true⟩ ⟨0, []⟩),
   .onEpochTickEnd ⟨cronActorAddr, 0, .ok ⟨⟨0, 0⟩, 0⟩,
     [.err (.illegalState "deferred cron failed"), .err (.illegalState "deferred cron failed")],
     .ok ()⟩]

theorem run_claim_kept_failingRun :
    let st := (run ⟨fun _ => .ok 10, 4, ⟨0, 0⟩, fun e _ _ => e⟩
      (State.new ⟨fun _ => .ok 10, 4, ⟨0, 0⟩, fun e _ _ => e⟩) (failingRun.take 2)).1
    ((st.claims.lookup (.id 1000)).isSome ∧
        ∀ failed ∈ failureLog ⟨fun _ => .ok 10, 4, ⟨0, 0⟩, fun e _ _ => e⟩ st (failingRun.drop 2),
          Address.id 1000 ∉ failed) ∧
      ((run ⟨fun _ => .ok 10, 4, ⟨0, 0⟩, fun e _ _ => e⟩ st (failingRun.drop 2)).1.claims.lookup
        (.id 1000)).isSome :=
  ⟨⟨by decide, by decide⟩, run_claim_kept _ _ _ (by decide) (by decide)⟩

/-- The ledger invariant, with the number of claims less the miner count fixed at `K`. -/
def CountInv (policy : Policy) (K : Int) (st : State) (ids : List Address) : Prop :=
  LedgerInv policy st ids ∧ claimsSum (fun _ => 1) st.claims - st.minerCount = K

theorem applyCall_countInv {policy : Policy} {K : Int} (st : State) (c : Call)
    (ids : List Address)
    (h : CountInv policy K st (createdAddresses (applyCall policy st c).2 ++ ids)) :
    CountInv policy K (applyCall policy st c).1 ids :=
  ⟨applyCall_ledgerInv c h.1,
    (applyCall_count policy st c fun a ha => h.1.fresh a (List.mem_append_left ids ha)).trans h.2⟩

/-- A tick lowers the number of claims by the distinct miners of `failed_miner_crons` and the
miner count by its length; a call keeps the difference. -/
theorem step_count {policy : Policy} (pos : PositiveMinimum policy) {st : State} (m : Msg)
    {ids : List Address} (h : LedgerInv policy st (createdAddresses (step policy st m).2 ++ ids)) :
    claimsSum (fun _ => 1) (step policy st m).1.claims - (step policy st m).1.minerCount =
      claimsSum (fun _ => 1) st.claims - st.minerCount + repeats (m.failures policy st) := by
  cases m with
  | call c =>
    rw [step_call, applyCall_count policy st c fun a ha => h.fresh a (List.mem_append_left ids ha)]
    exact (Int.add_zero _).symm
  | onEpochTickEnd env =>
    rw [failures_onEpochTickEnd, step_onEpochTickEnd]
    rw [step_onEpochTickEnd] at h
    split_ifs at h ⊢
    · dsimp only at h ⊢
      rw [snapshotTotals_eq, resultState_ok]
      have claimed : ∀ event ∈ (collectLoop st.claims (env.currEpoch + 1 - st.firstCronEpoch).toNat
          st.firstCronEpoch st.cronEventQueue).2, (st.claims.lookup event.minerAddr).isSome :=
        fun _ => claimed_of_mem_collectLoop
      generalize collectLoop st.claims _ st.firstCronEpoch st.cronEventQueue = collected
        at claimed h ⊢
      have called := sendCallbacks_consumes policy
        (CountInv policy (claimsSum (fun _ => 1) st.claims - st.minerCount)) applyCall_countInv
        collected.2 env.callbacks
        { st with cronEventQueue := collected.1, firstCronEpoch := env.currEpoch + 1 } ids
        ⟨⟨h.accounting.of_ledger rfl, h.nodup, h.fresh⟩, rfl⟩
      have held : ∀ a ∈ failedMinerCrons collected.2 env.callbacks,
          ((sendCallbacks policy collected.2 env.callbacks
            { st with cronEventQueue := collected.1, firstCronEpoch := env.currEpoch + 1 }).state.claims.lookup
              a).isSome := fun a ha => by
        obtain ⟨event, he, rfl⟩ := exists_of_mem_failedMinerCrons ha
        exact sendCallbacks_claim_kept policy _ _ (claimed event he)
      rw [sendCallbacks_failed]
      obtain ⟨count, erased⟩ := removeFailedMiners_erases pos
        (failedMinerCrons collected.2 env.callbacks) called.1.accounting
      have shorter := length_entries_of_erased held erased
      have le := (List.dedup_sublist (failedMinerCrons collected.2 env.callbacks)).length_le
      have diff := called.2
      simp only [claimsSum_one] at diff ⊢
      rw [count]
      unfold repeats
      omega
    · exact (Int.add_zero _).symm

theorem run_count {policy : Policy} (pos : PositiveMinimum policy) (ms : List Msg) {st : State}
    {ids : List Address} (h : LedgerInv policy st (createdAddresses (run policy st ms).2 ++ ids)) :
    claimsSum (fun _ => 1) (run policy st ms).1.claims - (run policy st ms).1.minerCount =
      claimsSum (fun _ => 1) st.claims - st.minerCount +
        (((failureLog policy st ms).map repeats).sum : Nat) := by
  induction ms generalizing st with
  | nil => exact (Int.add_zero _).symm
  | cons m ms ih =>
    rw [run_cons, createdAddresses_append, List.append_assoc] at h
    rw [run_cons]
    dsimp only
    have now := step_count pos m h
    have later := ih (step_ledgerInv pos m h)
    show _ = _ + ((repeats (m.failures policy st) +
      ((failureLog policy (step policy st m).1 ms).map repeats).sum : Nat) : Int)
    omega

/-- With positive consensus minimums and distinct ID addresses for the `CreateMiner` calls that
commit, after any run `miner_count` falls short of the number of claims by exactly the number of
repeated entries in the committed ticks' `failed_miner_crons`: it is right exactly when no tick
lists a failed miner twice. -/
theorem run_minerCount_deficit (policy : Policy) (pos : PositiveMinimum policy) (ms : List Msg)
    (distinct : (createdAddresses (run policy (State.new policy) ms).2).Nodup) :
    ((run policy (State.new policy) ms).1.claims.entries.length : Int) =
        (run policy (State.new policy) ms).1.minerCount +
          (((failureLog policy (State.new policy) ms).map repeats).sum : Nat) ∧
      ((run policy (State.new policy) ms).1.minerCount =
          (run policy (State.new policy) ms).1.claims.entries.length ↔
        ∀ failed ∈ failureLog policy (State.new policy) ms, failed.Nodup) := by
  have counted := run_count pos ms (LedgerInv.start policy distinct)
  rw [claimsSum_one, claimsSum_one] at counted
  have start : ((State.new policy).claims.entries.length : Int) - (State.new policy).minerCount = 0 :=
    rfl
  refine ⟨by omega, ?_⟩
  have noRepeats : ((failureLog policy (State.new policy) ms).map repeats).sum = 0 ↔
      ∀ failed ∈ failureLog policy (State.new policy) ms, repeats failed = 0 :=
    List.sum_eq_zero_iff.trans List.forall_mem_map
  simp only [← repeats_eq_zero_iff]
  rw [← Int.sub_eq_zero, ← noRepeats]
  omega

theorem run_minerCount_deficit_failingRun :
    let P : Policy := ⟨fun _ => .ok 10, 4, ⟨0, 0⟩, fun e _ _ => e⟩
    PositiveMinimum P ∧ (createdAddresses (run P (State.new P) failingRun).2).Nodup ∧
      ((run P (State.new P) failingRun).1.claims.entries.length : Int) =
          (run P (State.new P) failingRun).1.minerCount +
            (((failureLog P (State.new P) failingRun).map repeats).sum : Nat) ∧
        ((run P (State.new P) failingRun).1.minerCount =
            (run P (State.new P) failingRun).1.claims.entries.length ↔
          ∀ failed ∈ failureLog P (State.new P) failingRun, failed.Nodup) :=
  have pos : PositiveMinimum ⟨fun _ => .ok 10, 4, ⟨0, 0⟩, fun e _ _ => e⟩ :=
    fun _ _ h => by cases h; decide
  ⟨pos, by decide, run_minerCount_deficit _ pos failingRun (by decide)⟩

/-- In the failing run the tick lists `f01001` twice: its claim is gone, and `miner_count` is
one below the one claim left. -/
example :
    let P : Policy := ⟨fun _ => .ok 10, 4, ⟨0, 0⟩, fun e _ _ => e⟩
    failureLog P (State.new P) failingRun = [[], [], [], [], [.id 1001, .id 1001]] ∧
      (run P (State.new P) failingRun).1.claims.keys = [.id 1000] ∧
      (run P (State.new P) failingRun).1.minerCount = 0 := by
  decide

/-- One miner, two enrollments at epoch 0, and a tick at epoch 0 where both callbacks fail:
`failed_miner_crons` then holds the miner twice. -/
def doubleFailureRun (miner : Address) : List Msg :=
  [.call (.createMiner ⟨0⟩ (.ok ⟨miner, .actor []⟩)),
   .call (.enrollCronEvent ⟨miner, true⟩ ⟨0, []⟩),
   .call (.enrollCronEvent ⟨miner, true⟩ ⟨0, []⟩),
   .onEpochTickEnd ⟨cronActorAddr, 0, .ok ⟨⟨0, 0⟩, 0⟩,
     [.err (.illegalState "deferred cron failed"), .err (.illegalState "deferred cron failed")],
     .ok ()⟩]

/-- The first deletion removes the claim and lowers `miner_count` to 0; the second finds no
claim, `delete_claim` returns `Ok`, and `miner_count` drops to -1 with no claim left. -/
theorem run_doubleFailureRun (policy : Policy) {p : Int}
    (hp : policy.consensusMinerMinPower 0 = .ok p) (miner : Address) :
    (run policy (State.new policy) (doubleFailureRun miner)).1.minerCount = -1 ∧
      (run policy (State.new policy) (doubleFailureRun miner)).1.claims.keys = [] := by
  have hsign : (0 < p ∧ ¬p ≤ 0) ∨ (p ≤ 0 ∧ ¬0 < p) := by omega
  rcases hsign with ⟨h₁, h₂⟩ | ⟨h₁, h₂⟩ <;>
    simp [h₁, h₂, hp, doubleFailureRun, run_cons, run, step_call, step_onEpochTickEnd, applyCall,
      Call.exec, createMiner, liftSend, transaction, setClaim, updateStatsForNewMiner,
      consensusMinerMinPower, enrollCronEvent_eq, appendCronEvent_eq, State.new, cronActorAddr,
      Except.isOk, Except.toBool, collectLoop, loadCronEvents, sendCallbacks, removeFailedMiners,
      deleteClaim, addToClaim, snapshotTotals_eq, -AList.insert_empty, AList.lookup_insert,
      AList.lookup_erase, AList.insert_insert, AList.keys_erase, AList.keys_insert]

theorem run_doubleFailureRun_f01000 :
    (⟨fun _ => .ok 10, 4, ⟨0, 0⟩, fun e _ _ => e⟩ : Policy).consensusMinerMinPower 0 = .ok 10 ∧
      (run ⟨fun _ => .ok 10, 4, ⟨0, 0⟩, fun e _ _ => e⟩
        (State.new ⟨fun _ => .ok 10, 4, ⟨0, 0⟩, fun e _ _ => e⟩)
        (doubleFailureRun (.id 1000))).1.minerCount = -1 ∧
      (run ⟨fun _ => .ok 10, 4, ⟨0, 0⟩, fun e _ _ => e⟩
        (State.new ⟨fun _ => .ok 10, 4, ⟨0, 0⟩, fun e _ _ => e⟩)
        (doubleFailureRun (.id 1000))).1.claims.keys = [] :=
  ⟨rfl, run_doubleFailureRun _ rfl (.id 1000)⟩

theorem applyCall_not_ticked (policy : Policy) (st : State) (c : Call) (t : Int)
    (C : AList (fun _ : Address => Claim)) (sent : List CronEvent) :
    CronAction.ticked t C sent ∉ (applyCall policy st c).2 := by
  intro h
  rcases applyCall_cases policy st c with ⟨-, hlog⟩ | ⟨k, ev, -, he⟩ | ⟨delta, -, he⟩
  · obtain ⟨a, ha⟩ := hlog _ h
    cases ha
  · rw [he] at h
    cases List.mem_singleton.mp h
  · rw [he] at h
    cases h

theorem sendCallbacks_not_ticked (policy : Policy) (events : List CronEvent)
    (outcomes : List CallbackOutcome) (st : State) (t : Int)
    (C : AList (fun _ : Address => Claim)) (sent : List CronEvent) :
    CronAction.ticked t C sent ∉ (sendCallbacks policy events outcomes st).log :=
  sendCallbacks_preserves policy (fun _ L => CronAction.ticked t C sent ∉ L)
    (fun st' _ c hL h => (List.mem_append.mp h).elim hL (applyCall_not_ticked policy st' c t C sent))
    events outcomes [] (List.not_mem_nil _)

theorem applyCall_lookup_none (policy : Policy) (st : State) (c : Call) {a : Address}
    (none_ : st.claims.lookup a = none) (fresh : a ∉ createdAddresses (applyCall policy st c).2) :
    (applyCall policy st c).1.claims.lookup a = none := by
  rcases applyCall_claims policy st c with
    ⟨claims, -⟩ | ⟨b, hb, claim, claims, -⟩ | ⟨b, old, new, hold, claims, -⟩ <;> rw [claims]
  · exact none_
  · rwa [AList.lookup_insert_ne fun h : a = b => fresh (h ▸ hb)]
  · rwa [AList.lookup_insert_ne]
    rintro rfl
    rw [hold] at none_
    cases none_

theorem sendCallbacks_lookup_none (policy : Policy) (events : List CronEvent)
    (outcomes : List CallbackOutcome) {st : State} {a : Address}
    (none_ : st.claims.lookup a = none)
    (fresh : a ∉ createdAddresses (sendCallbacks policy events outcomes st).log) :
    (sendCallbacks policy events outcomes st).state.claims.lookup a = none :=
  (sendCallbacks_consumes policy (fun st ids => st.claims.lookup a = none ∧ a ∉ ids)
    (fun st c _ h => ⟨applyCall_lookup_none policy st c h.1 fun ha => h.2 (List.mem_append_left _ ha),
      fun ha => h.2 (List.mem_append_right _ ha)⟩)
    events outcomes st [] ⟨none_, by rwa [List.append_nil]⟩).1

theorem removeFailedMiners_lookup_none (policy : Policy) {a : Address} (failed : List Address)
    (st : State) (none_ : st.claims.lookup a = none) :
    (removeFailedMiners policy failed st).claims.lookup a = none := by
  induction failed generalizing st with
  | nil => exact none_
  | cons m rest ih =>
    unfold removeFailedMiners
    split
    · rename_i e st' hdel
      exact ih st' (((deleteClaim_keepsClaimsOnError policy m).claims st e st' hdel).symm ▸ none_)
    · rename_i u st' hdel
      exact ih _ (((deleteClaim_ok hdel).2 a).trans (by rw [none_, ite_self]))

/-- A message that does not hand out a miner's address gives it no claim if it has none, and
then sends it no callback: a tick sends only events of miners with a claim. -/
theorem step_unclaimed (policy : Policy) (st : State) (m : Msg) {miner : Address}
    (none_ : st.claims.lookup miner = none)
    (fresh : miner ∉ createdAddresses (step policy st m).2) :
    (step policy st m).1.claims.lookup miner = none ∧
      ∀ t C sent, CronAction.ticked t C sent ∈ (step policy st m).2 →
        ∀ event ∈ sent, event.minerAddr ≠ miner := by
  cases m with
  | call c =>
    exact ⟨applyCall_lookup_none policy st c none_ fresh,
      fun t C sent h => absurd h (applyCall_not_ticked policy st c t C sent)⟩
  | onEpochTickEnd env =>
    rw [step_onEpochTickEnd] at fresh ⊢
    split_ifs at fresh ⊢
    · dsimp only at fresh ⊢
      rw [snapshotTotals_eq, resultState_ok]
      refine ⟨removeFailedMiners_lookup_none policy _ _
        (sendCallbacks_lookup_none policy _ _ none_ fresh), fun t C sent h => ?_⟩
      rcases List.mem_cons.mp h with h | h
      · cases h
        intro event he hm
        rw [sendCallbacks_sent] at he
        have claimed := claimed_of_mem_collectLoop he
        rw [hm, none_] at claimed
        cases claimed
      · exact absurd h (sendCallbacks_not_ticked policy _ _ _ t C sent)
    · exact ⟨none_, fun _ _ _ h => absurd h (List.not_mem_nil _)⟩

theorem run_unclaimed (policy : Policy) (st : State) (ms : List Msg) {miner : Address}
    (none_ : st.claims.lookup miner = none)
    (fresh : miner ∉ createdAddresses (run policy st ms).2) :
    ∀ t C sent, CronAction.ticked t C sent ∈ (run policy st ms).2 →
      ∀ event ∈ sent, event.minerAddr ≠ miner := by
  induction ms generalizing st with
  | nil => exact fun _ _ _ h => absurd h (List.not_mem_nil _)
  | cons m ms ih =>
    rw [run_cons, createdAddresses_append, List.mem_append, not_or] at fresh
    have now := step_unclaimed policy st m none_ fresh.1
    rw [run_cons]
    intro t C sent h
    rcases List.mem_append.mp h with h | h
    · exact now.2 t C sent h
    · exact ih _ now.1 fresh.2 t C sent h

theorem step_failures_unclaimed {policy : Policy} (pos : PositiveMinimum policy) {st : State}
    (m : Msg) {ids : List Address}
    (h : LedgerInv policy st (createdAddresses (step policy st m).2 ++ ids)) {miner : Address}
    (failed : miner ∈ m.failures policy st) : (step policy st m).1.claims.lookup miner = none := by
  cases m with
  | call c => nomatch failed
  | onEpochTickEnd env =>
    rw [failures_onEpochTickEnd] at failed
    rw [step_onEpochTickEnd] at h ⊢
    split_ifs at failed h ⊢
    · dsimp only at h ⊢
      rw [snapshotTotals_eq, resultState_ok]
      generalize collectLoop st.claims _ st.firstCronEpoch st.cronEventQueue = collected
        at failed h ⊢
      have called := sendCallbacks_consumes policy (LedgerInv policy)
        (fun _ c _ h => applyCall_ledgerInv c h) collected.2 env.callbacks
        { st with cronEventQueue := collected.1, firstCronEpoch := env.currEpoch + 1 } ids
        ⟨h.accounting.of_ledger rfl, h.nodup, h.fresh⟩
      rw [(removeFailedMiners_erases pos _ called.accounting).2, sendCallbacks_failed, if_pos failed]
    · nomatch failed

/-- With positive consensus minimums and distinct ID addresses for the `CreateMiner` calls that
commit, a miner that a committed tick lists in `failed_miner_crons` is left frozen ("Remove
power and leave miner frozen"): its claim is gone, and no later tick sends it
`OnDeferredCronEvent`, whatever it enrolls, unless a committed `CreateMiner` is handed its
address again. -/
theorem run_failed_miner_frozen (policy : Policy) (pos : PositiveMinimum policy)
    (ms later : List Msg) (env : TickEnv) {miner : Address}
    (distinct : (createdAddresses
      (run policy (State.new policy) (ms ++ [Msg.onEpochTickEnd env])).2).Nodup)
    (failed : miner ∈ (Msg.onEpochTickEnd env).failures policy (run policy (State.new policy) ms).1)
    (notReissued : miner ∉ createdAddresses
      (run policy (run policy (State.new policy) (ms ++ [Msg.onEpochTickEnd env])).1 later).2) :
    (run policy (State.new policy) (ms ++ [Msg.onEpochTickEnd env])).1.claims.lookup miner = none ∧
      ∀ t C sent, CronAction.ticked t C sent ∈
          (run policy (run policy (State.new policy) (ms ++ [Msg.onEpochTickEnd env])).1 later).2 →
        ∀ event ∈ sent, event.minerAddr ≠ miner := by
  have before := run_consumes policy (LedgerInv policy) (fun _ m _ h => step_ledgerInv pos m h)
    ms _ (LedgerInv.start_append_singleton policy distinct)
  have gone : (run policy (State.new policy) (ms ++ [Msg.onEpochTickEnd env])).1.claims.lookup
      miner = none := by
    rw [run_append_singleton]
    exact step_failures_unclaimed pos _ before failed
  exact ⟨gone, run_unclaimed policy _ later gone notReissued⟩

/-- `f01001` fails at the tick of epoch 0, enrolls again for epoch 1, and is not called back at
the tick of epoch 1. -/
theorem run_failed_miner_frozen_failingRun :
    let P : Policy := ⟨fun _ => .ok 10, 4, ⟨0, 0⟩, fun e _ _ => e⟩
    let env : TickEnv := ⟨cronActorAddr, 0, .ok ⟨⟨0, 0⟩, 0⟩,
      [.err (.illegalState "deferred cron failed"), .err (.illegalState "deferred cron failed")],
      .ok ()⟩
    let later : List Msg := [.call (.enrollCronEvent ⟨.id 1001, true⟩ ⟨1, []⟩),
      .onEpochTickEnd ⟨cronActorAddr, 1, .ok ⟨⟨0, 0⟩, 0⟩, [], .ok ()⟩]
    PositiveMinimum P ∧
      (createdAddresses (run P (State.new P) (failingRun.dropLast ++ [Msg.onEpochTickEnd env])).2).Nodup ∧
      Address.id 1001 ∈ (Msg.onEpochTickEnd env).failures P (run P (State.new P) failingRun.dropLast).1 ∧
      Address.id 1001 ∉ createdAddresses
        (run P (run P (State.new P) (failingRun.dropLast ++ [Msg.onEpochTickEnd env])).1 later).2 ∧
      ((run P (State.new P) (failingRun.dropLast ++ [Msg.onEpochTickEnd env])).1.claims.lookup
          (.id 1001) = none ∧
        ∀ t C sent, CronAction.ticked t C sent ∈
            (run P (run P (State.new P) (failingRun.dropLast ++ [Msg.onEpochTickEnd env])).1 later).2 →
          ∀ event ∈ sent, event.minerAddr ≠ .id 1001) :=
  have pos : PositiveMinimum ⟨fun _ => .ok 10, 4, ⟨0, 0⟩, fun e _ _ => e⟩ :=
    fun _ _ h => by cases h; decide
  ⟨pos, by decide, by decide, by decide,
    run_failed_miner_frozen _ pos _ _ _ (by decide) (by decide) (by decide)⟩

/-- The frozen miner's event for epoch 1 is enrolled and then dropped at collection: the tick of
epoch 1 sends nothing. -/
example :
    let P : Policy := ⟨fun _ => .ok 10, 4, ⟨0, 0⟩, fun e _ _ => e⟩
    (run P (run P (State.new P) failingRun).1
        [.call (.enrollCronEvent ⟨.id 1001, true⟩ ⟨1, []⟩),
         .onEpochTickEnd ⟨cronActorAddr, 1, .ok ⟨⟨0, 0⟩, 0⟩, [], .ok ()⟩]).2.map
      (fun | .enrolled k _ => (k, 1) | .ticked t _ sent => (t, sent.length) | .created _ => (0, 0)) =
      [(1, 1), (1, 0)] := by
  decide

end BuiltinActors.Power
