import BuiltinActors.Power.Actor

namespace BuiltinActors.Power

/-- The state a method leaves behind, whether it returns or fails. -/
def resultState {α : Type} : EStateM.Result ActorError State α → State
  | .ok _ s => s
  | .error _ s => s

section Eval

variable {α β : Type} (st : State)

@[simp] theorem resultState_ok (a : α) : resultState (.ok a st) = st := rfl
@[simp] theorem resultState_error (e : ActorError) :
    resultState (.error e st : EStateM.Result ActorError State α) = st := rfl

@[simp] theorem pure_apply (a : α) : (pure a : PowerM α) st = .ok a st := rfl
@[simp] theorem throw_apply (e : ActorError) : (throw e : PowerM α) st = .error e st := rfl
@[simp] theorem get_apply : (get : PowerM State) st = .ok st st := rfl
@[simp] theorem modify_apply (f : State → State) : (modify f : PowerM Unit) st = .ok () (f st) :=
  rfl
@[simp] theorem modifyGet_apply (f : State → α × State) :
    (modifyGet f : PowerM α) st = .ok (f st).1 (f st).2 := rfl
@[simp] theorem set_apply (st' : State) : (set st' : PowerM PUnit) st = .ok () st' := rfl
@[simp] theorem bind_apply (x : PowerM α) (f : α → PowerM β) :
    (x >>= f) st = match x st with
      | .ok a s => f a s
      | .error e s => .error e s := by
  show EStateM.bind x f st = _
  unfold EStateM.bind
  cases x st <;> rfl
@[simp] theorem map_apply (f : α → β) (x : PowerM α) :
    (f <$> x) st = match x st with
      | .ok a s => .ok (f a) s
      | .error e s => .error e s := by
  show EStateM.map f x st = _
  unfold EStateM.map
  cases x st <;> rfl
@[simp] theorem tryCatch_apply (x : PowerM α) (h : ActorError → PowerM α) :
    tryCatch x h st = match x st with
      | .ok a s => .ok a s
      | .error e s => h e s := by
  show EStateM.tryCatch x h st = _
  unfold EStateM.tryCatch
  cases x st <;> rfl

end Eval

/-- A computation that got past a check committed only because the check did not throw. -/
theorem ok_of_ite_throw {α : Type} {c : Prop} [Decidable c] {e : ActorError} {x : PowerM α}
    {a : α} {st st' : State} (h : (if c then throw e else x) st = .ok a st') :
    ¬c ∧ x st = .ok a st' := by
  by_cases hc : c
  · rw [if_pos hc] at h
    cases h
  · rw [if_neg hc] at h
    exact ⟨hc, h⟩

/-- `st` with the claims, the committed totals and the miner counts of `src`. -/
def State.withLedger (st src : State) : State :=
  { st with totalRawBytePower := src.totalRawBytePower,
            totalBytesCommitted := src.totalBytesCommitted,
            totalQualityAdjPower := src.totalQualityAdjPower,
            totalQABytesCommitted := src.totalQABytesCommitted,
            minerCount := src.minerCount,
            minerAboveMinPowerCount := src.minerAboveMinPowerCount,
            claims := src.claims }

/-- `st'` differs from `st` at most in the claims, the committed totals and the counts. -/
def LedgerOnly (st st' : State) : Prop := st' = st.withLedger st'

namespace LedgerOnly

variable {st st' st'' : State}

theorem refl (st : State) : LedgerOnly st st := rfl

theorem trans (h₁ : LedgerOnly st st') (h₂ : LedgerOnly st' st'') : LedgerOnly st st'' := by
  unfold LedgerOnly at *
  rw [h₁] at h₂
  exact h₂

theorem cronEventQueue (h : LedgerOnly st st') : st'.cronEventQueue = st.cronEventQueue :=
  @congrArg _ _ st' (st.withLedger st') State.cronEventQueue h

theorem firstCronEpoch (h : LedgerOnly st st') : st'.firstCronEpoch = st.firstCronEpoch :=
  @congrArg _ _ st' (st.withLedger st') State.firstCronEpoch h

theorem totalPledgeCollateral (h : LedgerOnly st st') :
    st'.totalPledgeCollateral = st.totalPledgeCollateral :=
  @congrArg _ _ st' (st.withLedger st') State.totalPledgeCollateral h

theorem thisEpochPledgeCollateral (h : LedgerOnly st st') :
    st'.thisEpochPledgeCollateral = st.thisEpochPledgeCollateral :=
  @congrArg _ _ st' (st.withLedger st') State.thisEpochPledgeCollateral h

theorem currentTotalPower (h : LedgerOnly st st') :
    Power.currentTotalPower st' = Power.currentTotalPower st :=
  @congrArg _ _ st' (st.withLedger st') Power.currentTotalPower h

end LedgerOnly

/-- `m` writes only the ledger part of the state, whether it returns or fails. -/
structure OnlyLedger {α : Type} (m : PowerM α) : Prop where
  ledgerOnly : ∀ st, LedgerOnly st (resultState (m st))

namespace OnlyLedger

variable {α β : Type}

theorem pure (a : α) : OnlyLedger (pure a : PowerM α) := ⟨LedgerOnly.refl⟩

theorem throw (e : ActorError) : OnlyLedger (throw e : PowerM α) := ⟨LedgerOnly.refl⟩

theorem get : OnlyLedger (get : PowerM State) := ⟨LedgerOnly.refl⟩

theorem modify {f : State → State} (h : ∀ st, LedgerOnly st (f st)) :
    OnlyLedger (modify f : PowerM Unit) := ⟨h⟩

theorem bind {x : PowerM α} {f : α → PowerM β} (hx : OnlyLedger x)
    (hf : ∀ a, OnlyLedger (f a)) : OnlyLedger (x >>= f) := by
  refine ⟨fun st => ?_⟩
  have h := hx.ledgerOnly st
  rw [bind_apply]
  split <;> simp_all only [resultState]
  exact h.trans ((hf _).ledgerOnly _)

theorem ite {c : Prop} [Decidable c] {x y : PowerM α} (hx : OnlyLedger x) (hy : OnlyLedger y) :
    OnlyLedger (if c then x else y) := by
  split <;> assumption

theorem transaction {x : PowerM α} (hx : OnlyLedger x) : OnlyLedger (Power.transaction x) := by
  refine ⟨fun st => ?_⟩
  have h := hx.ledgerOnly st
  unfold Power.transaction
  split <;> simp_all only [resultState]
  exact LedgerOnly.refl st

theorem tryCatch {x : PowerM α} {h : ActorError → PowerM α} (hx : OnlyLedger x)
    (hh : ∀ e, OnlyLedger (h e)) : OnlyLedger (tryCatch x h) := by
  refine ⟨fun st => ?_⟩
  have hst := hx.ledgerOnly st
  simp only [MonadExcept.tryCatch, MonadExceptOf.tryCatch, tryCatchThe, EStateM.tryCatch]
  split <;> simp_all only [resultState, EStateM.dummyRestore, EStateM.Backtrackable.restore]
  exact hst.trans ((hh _).ledgerOnly _)

end OnlyLedger

theorem liftSend_onlyLedger {α : Type} (context : String) (r : Except ActorError α) :
    OnlyLedger (liftSend context r) := by
  cases r
  exacts [OnlyLedger.throw _, OnlyLedger.pure _]

theorem validateImmediateCallerIsMiner_onlyLedger (caller : Caller) :
    OnlyLedger (validateImmediateCallerIsMiner caller) :=
  OnlyLedger.ite (OnlyLedger.pure _) (OnlyLedger.throw _)

theorem consensusMinerMinPower_onlyLedger (policy : Policy) (proof : Nat) :
    OnlyLedger (consensusMinerMinPower policy proof) := by
  unfold consensusMinerMinPower
  split
  exacts [OnlyLedger.pure _, OnlyLedger.throw _]

theorem setClaim_onlyLedger (a : Address) (claim : Claim) : OnlyLedger (setClaim a claim) := by
  unfold setClaim
  dsimp only
  repeat' first
    | apply OnlyLedger.bind | apply OnlyLedger.ite | apply OnlyLedger.pure
    | apply OnlyLedger.throw | apply OnlyLedger.modify | intro _ | exact rfl

/-- The writes `add_to_claim` keeps after a failed check are ledger writes too. -/
theorem addToClaim_onlyLedger (policy : Policy) (miner : Address) (power qaPower : Int) :
    OnlyLedger (addToClaim policy miner power qaPower) := by
  unfold addToClaim
  dsimp only
  repeat' first
    | apply OnlyLedger.bind | apply OnlyLedger.ite | apply OnlyLedger.pure
    | apply OnlyLedger.throw | apply OnlyLedger.modify | apply OnlyLedger.get
    | apply consensusMinerMinPower_onlyLedger | apply setClaim_onlyLedger
    | intro _ | exact rfl | split

theorem deleteClaim_onlyLedger (policy : Policy) (miner : Address) :
    OnlyLedger (deleteClaim policy miner) := by
  refine OnlyLedger.bind OnlyLedger.get fun st => ?_
  split
  · exact OnlyLedger.pure _
  · exact OnlyLedger.bind (addToClaim_onlyLedger _ _ _ _) fun _ => OnlyLedger.modify fun _ => rfl

theorem updateStatsForNewMiner_onlyLedger (policy : Policy) (windowPoStProof : Nat) :
    OnlyLedger (updateStatsForNewMiner policy windowPoStProof) :=
  OnlyLedger.bind (consensusMinerMinPower_onlyLedger _ _) fun _ =>
    OnlyLedger.ite (OnlyLedger.modify fun _ => rfl) (OnlyLedger.pure _)

theorem createMiner_onlyLedger (policy : Policy) (params : CreateMinerParams)
    (exec : Except ActorError ExecReturn) : OnlyLedger (createMiner policy params exec) :=
  OnlyLedger.bind (liftSend_onlyLedger _ _) fun _ =>
    OnlyLedger.bind (OnlyLedger.transaction <|
      OnlyLedger.bind (setClaim_onlyLedger _ _) fun _ =>
        OnlyLedger.bind (OnlyLedger.modify fun _ => rfl) fun _ =>
          OnlyLedger.tryCatch (updateStatsForNewMiner_onlyLedger _ _) fun _ => OnlyLedger.throw _)
      fun _ => OnlyLedger.pure _

theorem updateClaimedPower_onlyLedger (policy : Policy) (caller : Caller)
    (params : UpdateClaimedPowerParams) :
    OnlyLedger (updateClaimedPower policy caller params) :=
  OnlyLedger.bind (validateImmediateCallerIsMiner_onlyLedger _) fun _ =>
    OnlyLedger.transaction (addToClaim_onlyLedger _ _ _ _)

/-- The failure transaction deletes claims and lowers the miner count, and writes nothing
else. -/
theorem removeFailedMiners_ledgerOnly (policy : Policy) (failed : List Address) (st : State) :
    LedgerOnly st (removeFailedMiners policy failed st) := by
  induction failed generalizing st with
  | nil => exact LedgerOnly.refl st
  | cons minerAddr rest ih =>
    have hdel := (deleteClaim_onlyLedger policy minerAddr).ledgerOnly st
    unfold removeFailedMiners
    split <;> rename_i h <;> rw [h] at hdel
    · exact hdel.trans (ih _)
    · exact hdel.trans (LedgerOnly.trans (by exact rfl) (ih _))

/-- `m` leaves the claims map as it found it, whether it returns or fails. -/
structure KeepsClaims {α : Type} (m : PowerM α) : Prop where
  claims : ∀ st, (resultState (m st)).claims = st.claims

/-- `m` leaves the claims map as it found it when it fails. -/
structure KeepsClaimsOnError {α : Type} (m : PowerM α) : Prop where
  claims : ∀ st e st', m st = .error e st' → st'.claims = st.claims

namespace KeepsClaims

variable {α β : Type}

theorem pure (a : α) : KeepsClaims (pure a : PowerM α) := ⟨fun _ => rfl⟩

theorem throw (e : ActorError) : KeepsClaims (throw e : PowerM α) := ⟨fun _ => rfl⟩

theorem get : KeepsClaims (get : PowerM State) := ⟨fun _ => rfl⟩

theorem modify {f : State → State} (h : ∀ st, (f st).claims = st.claims) :
    KeepsClaims (modify f : PowerM Unit) := ⟨h⟩

theorem bind {x : PowerM α} {f : α → PowerM β} (hx : KeepsClaims x)
    (hf : ∀ a, KeepsClaims (f a)) : KeepsClaims (x >>= f) := by
  refine ⟨fun st => ?_⟩
  have h := hx.claims st
  rw [bind_apply]
  split <;> simp_all only [resultState]
  exact ((hf _).claims _).trans h

theorem ite {c : Prop} [Decidable c] {x y : PowerM α} (hx : KeepsClaims x) (hy : KeepsClaims y) :
    KeepsClaims (if c then x else y) := by
  split <;> assumption

theorem onError {x : PowerM α} (hx : KeepsClaims x) : KeepsClaimsOnError x :=
  ⟨fun st e st' h => by simpa only [h, resultState] using hx.claims st⟩

end KeepsClaims

namespace KeepsClaimsOnError

variable {α β : Type}

/-- A failure after a step that kept the claims map is a failure of the rest. -/
theorem bind {x : PowerM α} {f : α → PowerM β} (hx : KeepsClaims x)
    (hf : ∀ a, KeepsClaimsOnError (f a)) : KeepsClaimsOnError (x >>= f) := by
  refine ⟨fun st e st' h => ?_⟩
  have hst := hx.claims st
  rw [bind_apply] at h
  split at h <;> simp_all only [resultState]
  · exact ((hf _).claims _ _ _ h).trans hst
  · cases h
    exact hst

/-- A step that cannot fail, after one that kept the claims map on failure. -/
theorem bind_modify {x : PowerM α} (hx : KeepsClaimsOnError x) (g : α → State → State) :
    KeepsClaimsOnError (x >>= fun a => modify (g a)) := by
  refine ⟨fun st e st' h => ?_⟩
  rw [bind_apply] at h
  split at h
  · cases h
  · cases h
    exact hx.claims st _ _ ‹_›

theorem modify (f : State → State) : KeepsClaimsOnError (modify f : PowerM Unit) :=
  ⟨fun _ _ _ h => nomatch h⟩

theorem ite {c : Prop} [Decidable c] {x y : PowerM α} (hx : KeepsClaimsOnError x)
    (hy : KeepsClaimsOnError y) : KeepsClaimsOnError (if c then x else y) := by
  split <;> assumption

end KeepsClaimsOnError

theorem consensusMinerMinPower_keepsClaims (policy : Policy) (proof : Nat) :
    KeepsClaims (consensusMinerMinPower policy proof) := by
  unfold consensusMinerMinPower
  split
  exacts [KeepsClaims.pure _, KeepsClaims.throw _]

theorem addToClaim_keepsClaimsOnError (policy : Policy) (miner : Address) (power qaPower : Int) :
    KeepsClaimsOnError (addToClaim policy miner power qaPower) := by
  unfold addToClaim
  refine KeepsClaimsOnError.bind KeepsClaims.get fun st => ?_
  split
  · dsimp only
    repeat' first
      | apply KeepsClaimsOnError.ite | apply KeepsClaimsOnError.modify
      | apply KeepsClaimsOnError.bind | apply KeepsClaims.onError
      | apply KeepsClaims.bind | apply KeepsClaims.ite | apply KeepsClaims.pure
      | apply KeepsClaims.throw | apply KeepsClaims.modify | apply KeepsClaims.get
      | apply consensusMinerMinPower_keepsClaims | intro _ | exact rfl
  · exact (KeepsClaims.throw _).onError

/-- A failed `delete_claim` leaves the claims map as it was. -/
theorem deleteClaim_keepsClaimsOnError (policy : Policy) (miner : Address) :
    KeepsClaimsOnError (deleteClaim policy miner) := by
  refine KeepsClaimsOnError.bind KeepsClaims.get fun st => ?_
  split
  · exact (KeepsClaims.pure _).onError
  · exact (addToClaim_keepsClaimsOnError _ _ _ _).bind_modify _

/-- `append_cron_event` lowers `first_cron_epoch` to the event's epoch and puts the event
last in its epoch's list. -/
theorem appendCronEvent_eq (epoch : Int) (event : CronEvent) (st : State) :
    appendCronEvent epoch event st = .ok () { st with
      firstCronEpoch := min epoch st.firstCronEpoch,
      cronEventQueue := st.cronEventQueue.insert epoch
        (loadCronEvents st.cronEventQueue epoch ++ [event]) } := by
  unfold appendCronEvent
  by_cases h : epoch < st.firstCronEpoch
  · simp [h, min_eq_left h.le, loadCronEvents]
  · simp [h, min_eq_right (not_lt.mp h), loadCronEvents]

theorem enrollCronEvent_eq (caller : Caller) (params : EnrollCronEventParams) (st : State) :
    enrollCronEvent caller params st =
      if ¬caller.isMiner then
        .error (.forbidden s!"caller {caller.address} is not of type miner") st
      else if params.eventEpoch < 0 then
        .error (.illegalArgument
          s!"cron event epoch {params.eventEpoch} cannot be less than zero") st
      else appendCronEvent params.eventEpoch ⟨caller.address, params.payload⟩ st := by
  unfold enrollCronEvent validateImmediateCallerIsMiner transaction
  by_cases hm : caller.isMiner <;> by_cases hn : params.eventEpoch < 0 <;>
    simp [hm, hn, appendCronEvent_eq]

/-- `update_pledge_total` either adds the delta to a non-negative total, or fails with the
state as it was: the add made before the check is rolled back with the transaction. -/
theorem updatePledgeTotal_eq (caller : Caller) (params : UpdatePledgeTotalParams) (st : State) :
    updatePledgeTotal caller params st =
      if ¬caller.isMiner then
        .error (.forbidden s!"caller {caller.address} is not of type miner") st
      else if st.claims.lookup caller.address = none then
        .error (.forbidden
          s!"unknown miner {caller.address} forbidden to interact with power actor") st
      else if st.totalPledgeCollateral + params.pledgeDelta < 0 then
        .error (.illegalState
          s!"negative total pledge collateral {st.totalPledgeCollateral + params.pledgeDelta}") st
      else .ok () { st with
        totalPledgeCollateral := st.totalPledgeCollateral + params.pledgeDelta } := by
  unfold updatePledgeTotal validateImmediateCallerIsMiner transaction validateMinerHasClaim
    addPledgeTotal
  by_cases hm : caller.isMiner <;> cases hc : st.claims.lookup caller.address <;>
    by_cases hn : st.totalPledgeCollateral + params.pledgeDelta < 0 <;>
    simp [hm, hc, hn]

end BuiltinActors.Power
