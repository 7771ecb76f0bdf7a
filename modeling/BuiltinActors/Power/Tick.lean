import BuiltinActors.Power.Frame

namespace BuiltinActors.Power

/-- A history entry that records a `CreateMiner`, which the cron queue ignores. -/
def CronAction.IsCreated (x : CronAction) : Prop := ∃ a, x = .created a

theorem applyCall_of_onlyLedger (policy : Policy) {c : Call} (h : OnlyLedger (c.exec policy))
    (hlog : ∀ x ∈ c.cronLog, x.IsCreated) (st : State) :
    LedgerOnly st (applyCall policy st c).1 ∧ ∀ x ∈ (applyCall policy st c).2, x.IsCreated := by
  have hst := h.ledgerOnly st
  unfold applyCall
  split <;> rename_i heq <;> rw [heq] at hst
  exacts [⟨hst, hlog⟩, ⟨LedgerOnly.refl st, fun _ h => nomatch h⟩]

/-- A committed call writes the ledger, enrolls one event at a non-negative epoch, or moves
the pledge total to a non-negative value; besides the enrollment, only the address of a new
miner is logged. -/
theorem applyCall_cases (policy : Policy) (st : State) (c : Call) :
    (LedgerOnly st (applyCall policy st c).1 ∧ ∀ x ∈ (applyCall policy st c).2, x.IsCreated) ∨
    (∃ k ev, 0 ≤ k ∧
      applyCall policy st c = (resultState (appendCronEvent k ev st), [.enrolled k ev])) ∨
    (∃ delta, 0 ≤ st.totalPledgeCollateral + delta ∧ applyCall policy st c =
      ({ st with totalPledgeCollateral := st.totalPledgeCollateral + delta }, [])) := by
  cases c with
  | createMiner params exec =>
    refine .inl (@applyCall_of_onlyLedger policy (.createMiner params exec)
      (OnlyLedger.bind (createMiner_onlyLedger policy params exec) fun _ => OnlyLedger.pure ())
      ?_ st)
    cases exec
    · exact fun _ h => nomatch h
    · exact fun _ h => ⟨_, List.mem_singleton.mp h⟩
  | updateClaimedPower caller params =>
    exact .inl (@applyCall_of_onlyLedger policy (.updateClaimedPower caller params)
      (updateClaimedPower_onlyLedger policy caller params) (fun _ h => nomatch h) st)
  | enrollCronEvent caller params =>
    unfold applyCall
    simp only [Call.exec]
    rw [enrollCronEvent_eq]
    split
    · rename_i heq
      split_ifs at heq with _ h
      rw [appendCronEvent_eq] at heq
      cases heq
      exact .inr (.inl ⟨_, _, not_lt.mp h, by rw [appendCronEvent_eq]; rfl⟩)
    · exact .inl ⟨LedgerOnly.refl st, fun _ h => nomatch h⟩
  | updatePledgeTotal caller params =>
    unfold applyCall
    simp only [Call.exec]
    rw [updatePledgeTotal_eq]
    split
    · rename_i heq
      split_ifs at heq with _ _ h
      cases heq
      exact .inr (.inr ⟨_, not_lt.mp h, rfl⟩)
    · exact .inl ⟨LedgerOnly.refl st, fun _ h => nomatch h⟩

/-- No call writes the epoch snapshot, whether it succeeds or fails. -/
theorem Call.exec_currentTotalPower (policy : Policy) (c : Call) (st : State) :
    currentTotalPower (resultState (c.exec policy st)) = currentTotalPower st := by
  cases c with
  | createMiner params exec =>
    exact ((OnlyLedger.bind (createMiner_onlyLedger policy params exec) fun _ =>
      OnlyLedger.pure ()).ledgerOnly st).currentTotalPower
  | updateClaimedPower caller params =>
    exact ((updateClaimedPower_onlyLedger policy caller params).ledgerOnly st).currentTotalPower
  | enrollCronEvent caller params =>
    simp only [Call.exec]
    rw [enrollCronEvent_eq, appendCronEvent_eq]
    split_ifs <;> rfl
  | updatePledgeTotal caller params =>
    simp only [Call.exec]
    rw [updatePledgeTotal_eq]
    split_ifs <;> rfl

section Runs

variable (policy : Policy)

theorem applyCalls_cons (st : State) (c : Call) (calls : List Call) :
    applyCalls policy st (c :: calls) =
      ((applyCalls policy (applyCall policy st c).1 calls).1,
        (applyCall policy st c).2 ++ (applyCalls policy (applyCall policy st c).1 calls).2) :=
  rfl

theorem step_call (st : State) (c : Call) : step policy st (.call c) = applyCall policy st c :=
  rfl

theorem run_cons (st : State) (m : Msg) (ms : List Msg) :
    run policy st (m :: ms) =
      ((run policy (step policy st m).1 ms).1,
        (step policy st m).2 ++ (run policy (step policy st m).1 ms).2) := rfl

theorem run_singleton (st : State) (m : Msg) : run policy st [m] = step policy st m :=
  Prod.ext rfl (List.append_nil _)

theorem run_append (st : State) (ms ms' : List Msg) :
    run policy st (ms ++ ms') =
      ((run policy (run policy st ms).1 ms').1,
        (run policy st ms).2 ++ (run policy (run policy st ms).1 ms').2) := by
  induction ms generalizing st with
  | nil => rfl
  | cons m ms ih => rw [List.cons_append, run_cons, run_cons, ih, List.append_assoc]

variable (I : State → List CronAction → Prop)

theorem applyCalls_preserves
    (hcall : ∀ st L c, I st L → I (applyCall policy st c).1 (L ++ (applyCall policy st c).2))
    (calls : List Call) {st : State} (L : List CronAction) (h : I st L) :
    I (applyCalls policy st calls).1 (L ++ (applyCalls policy st calls).2) := by
  induction calls generalizing st L with
  | nil => simpa [applyCalls] using h
  | cons c calls ih =>
    rw [applyCalls_cons, ← List.append_assoc]
    exact ih _ (hcall st L c h)

theorem sendCallbacks_preserves
    (hcall : ∀ st L c, I st L → I (applyCall policy st c).1 (L ++ (applyCall policy st c).2))
    (events : List CronEvent) (outcomes : List CallbackOutcome) {st : State}
    (L : List CronAction) (h : I st L) :
    I (sendCallbacks policy events outcomes st).state
      (L ++ (sendCallbacks policy events outcomes st).log) := by
  induction events generalizing outcomes st L with
  | nil => simpa [sendCallbacks] using h
  | cons event events ih =>
    unfold sendCallbacks
    split
    · rw [← List.append_assoc]
      exact ih outcomes.tail _ (applyCalls_preserves policy I hcall _ L h)
    · exact ih outcomes.tail L h

/-- The loop sends one `OnDeferredCronEvent` per collected event, in order, whatever the
miners answer. -/
theorem sendCallbacks_sent (events : List CronEvent) (outcomes : List CallbackOutcome)
    (st : State) : (sendCallbacks policy events outcomes st).sent = events := by
  induction events generalizing outcomes st with
  | nil => rfl
  | cons event events ih =>
    unfold sendCallbacks
    split <;> exact congrArg (event :: ·) (ih _ _)

theorem run_preserves (ms : List Msg)
    (hstep : ∀ m ∈ ms, ∀ st L, I st L → I (step policy st m).1 (L ++ (step policy st m).2))
    {st : State} (L : List CronAction) (h : I st L) :
    I (run policy st ms).1 (L ++ (run policy st ms).2) := by
  induction ms generalizing st L with
  | nil => simpa [run] using h
  | cons m ms ih =>
    rw [run_cons, ← List.append_assoc]
    exact ih (fun m' hm' => hstep m' (List.mem_cons_of_mem m hm')) _
      (hstep m (List.mem_cons_self m ms) st L h)

end Runs

/-- Skipping the failure transaction when no callback failed changes nothing. -/
theorem removeFailedMiners_guard {α : Type} (policy : Policy) (failed : List Address)
    (k : Unit → PowerM α) :
    (if (!failed.isEmpty) = true then modify (removeFailedMiners policy failed) >>= k
      else pure () >>= k) = modify (removeFailedMiners policy failed) >>= k := by
  cases failed <;> rfl

/-- `process_deferred_cron_events` never fails: it collects the due events, sends their
callbacks, then removes the miners whose callback failed. -/
theorem processDeferredCronEvents_eq (policy : Policy) (rtEpoch : Int)
    (callbacks : List CallbackOutcome) (st : State) :
    processDeferredCronEvents policy rtEpoch callbacks st =
      let collected := collectLoop st.claims (rtEpoch + 1 - st.firstCronEpoch).toNat
        st.firstCronEpoch st.cronEventQueue
      let called := sendCallbacks policy collected.2 callbacks
        { st with cronEventQueue := collected.1, firstCronEpoch := rtEpoch + 1 }
      .ok (called.sent, called.log) (removeFailedMiners policy called.failed called.state) := by
  unfold processDeferredCronEvents
  dsimp only
  simp only [removeFailedMiners_guard]
  simp only [transaction, collectCronEvents, bind_apply, modifyGet_apply, modify_apply,
    pure_apply]

theorem snapshotTotals_eq (policy : Policy) (st : State) :
    snapshotTotals policy st = .ok (st.currentTotalPower policy).1 { st with
      thisEpochPledgeCollateral := st.totalPledgeCollateral,
      thisEpochQualityAdjPower := (st.currentTotalPower policy).2,
      thisEpochRawBytePower := (st.currentTotalPower policy).1,
      thisEpochQAPowerSmoothed :=
        policy.nextEstimate st.thisEpochQAPowerSmoothed (st.currentTotalPower policy).2 1 } :=
  rfl

/-- A tick commits only when the cron actor calls it and both reward-actor sends succeed;
it then logs the events its loop sent, with the claims it started with, followed by the
history of the calls its callbacks made. -/
theorem step_onEpochTickEnd (policy : Policy) (env : TickEnv) (st : State) :
    step policy st (.onEpochTickEnd env) =
      if env.caller = cronActorAddr ∧ env.thisEpochReward.isOk ∧ env.updateNetworkKpi.isOk then
        let collected := collectLoop st.claims (env.currEpoch + 1 - st.firstCronEpoch).toNat
          st.firstCronEpoch st.cronEventQueue
        let called := sendCallbacks policy collected.2 env.callbacks
          { st with cronEventQueue := collected.1, firstCronEpoch := env.currEpoch + 1 }
        (resultState (snapshotTotals policy (removeFailedMiners policy called.failed called.state)),
          .ticked env.currEpoch st.claims called.sent :: called.log)
      else (st, []) := by
  unfold step onEpochTickEnd
  by_cases hc : env.caller = cronActorAddr
  · cases hr : env.thisEpochReward <;> cases hk : env.updateNetworkKpi <;>
      simp [hc, hr, hk, liftSend, processDeferredCronEvents_eq, snapshotTotals_eq, transaction,
        Except.isOk, Except.toBool]
  · simp [hc]

/-- No call writes the epoch snapshot, committed or rolled back. -/
theorem applyCall_currentTotalPower (policy : Policy) (st : State) (c : Call) :
    currentTotalPower (applyCall policy st c).1 = currentTotalPower st := by
  have same := Call.exec_currentTotalPower policy c st
  unfold applyCall
  split
  · rename_i heq
    rw [heq] at same
    exact same
  · rfl

/-- Both pledge figures are non-negative. -/
def PledgeNonneg (st : State) : Prop :=
  0 ≤ st.totalPledgeCollateral ∧ 0 ≤ st.thisEpochPledgeCollateral

theorem applyCall_pledgeNonneg (policy : Policy) (st : State) (c : Call) (h : PledgeNonneg st) :
    PledgeNonneg (applyCall policy st c).1 := by
  rcases applyCall_cases policy st c with ⟨hl, -⟩ | ⟨k, ev, -, he⟩ | ⟨delta, hd, he⟩
  · exact ⟨hl.totalPledgeCollateral ▸ h.1, hl.thisEpochPledgeCollateral ▸ h.2⟩
  · rw [he, appendCronEvent_eq]
    exact h
  · rw [he]
    exact ⟨hd, h.2⟩

/-- The failure transaction keeps the pledge total, and the snapshot copies it. -/
theorem snapshotTotals_removeFailedMiners_pledgeNonneg (policy : Policy) (failed : List Address)
    {st : State} (h : PledgeNonneg st) :
    PledgeNonneg (resultState (snapshotTotals policy (removeFailedMiners policy failed st))) := by
  rw [snapshotTotals_eq, resultState_ok]
  have htotal := (removeFailedMiners_ledgerOnly policy failed st).totalPledgeCollateral ▸ h.1
  exact ⟨htotal, htotal⟩

theorem step_pledgeNonneg (policy : Policy) (st : State) (m : Msg) (h : PledgeNonneg st) :
    PledgeNonneg (step policy st m).1 := by
  cases m with
  | call c => exact applyCall_pledgeNonneg policy st c h
  | onEpochTickEnd env =>
    rw [step_onEpochTickEnd]
    split_ifs
    · exact snapshotTotals_removeFailedMiners_pledgeNonneg policy _
        (sendCallbacks_preserves policy (fun st _ => PledgeNonneg st)
          (fun st _ c h => applyCall_pledgeNonneg policy st c h) _ env.callbacks [] h)
    · exact h

theorem pledgeCollateral_nonneg (policy : Policy) :
    (∀ ms : List Msg, 0 ≤ (run policy (State.new policy) ms).1.totalPledgeCollateral ∧
      0 ≤ (run policy (State.new policy) ms).1.thisEpochPledgeCollateral) ∧
    (∀ (caller : Caller) (params : UpdatePledgeTotalParams) (st : State),
      st.claims.lookup caller.address = none ∨
        st.totalPledgeCollateral + params.pledgeDelta < 0 →
      ∃ e, updatePledgeTotal caller params st = .error e st) := by
  refine ⟨fun ms => run_preserves policy (fun st _ => PledgeNonneg st) ms
    (fun m _ st _ h => step_pledgeNonneg policy st m h) [] ⟨le_refl 0, le_refl 0⟩,
    fun caller params st h => ?_⟩
  rw [updatePledgeTotal_eq]
  split_ifs
  all_goals first
    | exact ⟨_, rfl⟩
    | exact absurd h (by tauto)

end BuiltinActors.Power
