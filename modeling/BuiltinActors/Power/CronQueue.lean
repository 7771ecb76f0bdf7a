import BuiltinActors.Power.Tick

namespace BuiltinActors.Power

/-- The tick at position `j` serves the enrollment at position `i`: it is the first tick
after it whose epoch reaches the event's epoch. -/
def Serves (L : List CronAction) (i j : Nat) : Prop :=
  ∃ k ev t C sent, L[i]? = some (.enrolled k ev) ∧ L[j]? = some (.ticked t C sent) ∧
    i < j ∧ k ≤ t ∧
    ∀ j' t' C' sent', i < j' → j' < j → L[j']? = some (.ticked t' C' sent') → t' < k

/-- The enrollment at position `i` is still waiting after the history `L`: no later tick
reached its epoch. -/
def Waiting (L : List CronAction) (i : Nat) (k : Int) (ev : CronEvent) : Prop :=
  L[i]? = some (.enrolled k ev) ∧
    ∀ j t C sent, i < j → L[j]? = some (.ticked t C sent) → t < k

/-- What the tick at position `j` sent, collecting against the claims `C`: the events of the
enrollments it serves whose miner has a claim, each once, in non-decreasing epoch order. -/
def TickSent (L : List CronAction) (j : Nat) (C : AList (fun _ : Address => Claim))
    (sent : List CronEvent) : Prop :=
  ∃ served : List (Nat × Int × CronEvent), sent = served.map (·.2.2) ∧
    (served.map (·.1)).Nodup ∧
    (∀ i k ev, (i, k, ev) ∈ served ↔
      L[i]? = some (.enrolled k ev) ∧ Serves L i j ∧ (C.lookup ev.minerAddr).isSome) ∧
    (served.map (·.2.1)).Pairwise (· ≤ ·)

section History

variable {L : List CronAction} {i j : Nat} {k : Int} {ev : CronEvent}

theorem getElem?_append_singleton_of_eq_some {a x : CronAction} (h : (L ++ [a])[j]? = some x) :
    (j < L.length ∧ L[j]? = some x) ∨ (j = L.length ∧ a = x) := by
  rcases Nat.lt_trichotomy j L.length with hj | rfl | hj
  · exact .inl ⟨hj, (List.getElem?_append_left hj).symm.trans h⟩
  · simp at h
    exact .inr ⟨rfl, h⟩
  · rw [List.getElem?_eq_none (by simp; omega)] at h
    cases h

theorem Waiting.lt_length (h : Waiting L i k ev) : i < L.length :=
  (List.getElem?_eq_some_iff.mp h.1).1

theorem waiting_append_enrolled {k' : Int} {ev' : CronEvent} :
    Waiting (L ++ [.enrolled k' ev']) i k ev ↔
      Waiting L i k ev ∨ (i = L.length ∧ k = k' ∧ ev = ev') := by
  constructor
  · rintro ⟨he, hw⟩
    rcases getElem?_append_singleton_of_eq_some he with ⟨-, hx⟩ | ⟨rfl, hx⟩
    · exact .inl ⟨hx, fun j t C sent hij hj => hw j t C sent hij
        ((List.getElem?_append_left ((List.getElem?_eq_some_iff.mp hj).1)).trans hj)⟩
    · cases hx
      exact .inr ⟨rfl, rfl, rfl⟩
  · rintro (⟨he, hw⟩ | ⟨rfl, rfl, rfl⟩)
    · have hi := Waiting.lt_length ⟨he, hw⟩
      refine ⟨(List.getElem?_append_left hi).trans he, fun j t C sent hij hj => ?_⟩
      rcases getElem?_append_singleton_of_eq_some hj with ⟨-, hx⟩ | ⟨rfl, hx⟩
      · exact hw j t C sent hij hx
      · cases hx
    · refine ⟨by simp, fun j t C sent hij hj => ?_⟩
      rcases getElem?_append_singleton_of_eq_some hj with ⟨hj', _⟩ | ⟨rfl, _⟩ <;> omega

theorem waiting_append_created {a : Address} :
    Waiting (L ++ [.created a]) i k ev ↔ Waiting L i k ev := by
  constructor
  · rintro ⟨he, hw⟩
    rcases getElem?_append_singleton_of_eq_some he with ⟨-, hx⟩ | ⟨rfl, hx⟩
    · exact ⟨hx, fun j t C sent hij hj => hw j t C sent hij
        ((List.getElem?_append_left (List.getElem?_eq_some_iff.mp hj).1).trans hj)⟩
    · cases hx
  · rintro ⟨he, hw⟩
    refine ⟨(List.getElem?_append_left (Waiting.lt_length ⟨he, hw⟩)).trans he,
      fun j t C sent hij hj => ?_⟩
    rcases getElem?_append_singleton_of_eq_some hj with ⟨-, hx⟩ | ⟨rfl, hx⟩
    · exact hw j t C sent hij hx
    · cases hx

theorem waiting_append_ticked {t : Int} {C : AList (fun _ : Address => Claim)}
    {sent : List CronEvent} :
    Waiting (L ++ [.ticked t C sent]) i k ev ↔ Waiting L i k ev ∧ t < k := by
  constructor
  · rintro ⟨he, hw⟩
    rcases getElem?_append_singleton_of_eq_some he with ⟨hi, hx⟩ | ⟨rfl, hx⟩
    · refine ⟨⟨hx, fun j t' C' sent' hij hj => hw j t' C' sent' hij
        ((List.getElem?_append_left ((List.getElem?_eq_some_iff.mp hj).1)).trans hj)⟩,
        hw L.length t C sent hi (by simp)⟩
    · cases hx
  · rintro ⟨⟨he, hw⟩, ht⟩
    have hi := Waiting.lt_length ⟨he, hw⟩
    refine ⟨(List.getElem?_append_left hi).trans he, fun j t' C' sent' hij hj => ?_⟩
    rcases getElem?_append_singleton_of_eq_some hj with ⟨-, hx⟩ | ⟨rfl, hx⟩
    · exact hw j t' C' sent' hij hx
    · cases hx
      exact ht

end History

/-- One history entry's effect on the waiting enrollments: an enrollment joins at the back,
a tick at epoch `t` takes out every enrollment due by `t`. -/
def pendingStep (pend : List (Nat × Int × CronEvent)) (i : Nat) :
    CronAction → List (Nat × Int × CronEvent)
  | .enrolled k ev => pend ++ [(i, k, ev)]
  | .ticked t _ _ => pend.filter fun p => t < p.2.1
  | .created _ => pend

def pendingFrom (pend : List (Nat × Int × CronEvent)) (i : Nat) :
    List CronAction → List (Nat × Int × CronEvent)
  | [] => pend
  | a :: L => pendingFrom (pendingStep pend i a) (i + 1) L

/-- The enrollments waiting after a history, as position, epoch and event, in enrollment
order. -/
def pending (L : List CronAction) : List (Nat × Int × CronEvent) := pendingFrom [] 0 L

theorem pendingFrom_append_singleton (pend : List (Nat × Int × CronEvent)) (i : Nat)
    (L : List CronAction) (a : CronAction) :
    pendingFrom pend i (L ++ [a]) = pendingStep (pendingFrom pend i L) (i + L.length) a := by
  induction L generalizing pend i with
  | nil => rfl
  | cons b L ih =>
    rw [List.cons_append, pendingFrom, ih, pendingFrom, List.length_cons, Nat.add_assoc,
      Nat.add_comm 1]

theorem pending_append_singleton (L : List CronAction) (a : CronAction) :
    pending (L ++ [a]) = pendingStep (pending L) L.length a := by
  rw [pending, pendingFrom_append_singleton, Nat.zero_add]
  rfl

theorem mem_pending_iff {L : List CronAction} {i : Nat} {k : Int} {ev : CronEvent} :
    (i, k, ev) ∈ pending L ↔ Waiting L i k ev := by
  induction L using List.reverseRecOn generalizing i k ev with
  | nil => simp [pending, pendingFrom, Waiting]
  | append_singleton L a ih =>
    rw [pending_append_singleton]
    cases a with
    | enrolled k' ev' =>
      simp only [pendingStep, List.mem_append, List.mem_singleton, Prod.mk.injEq, ih,
        waiting_append_enrolled]
    | ticked t C sent =>
      simp only [pendingStep, List.mem_filter, ih, waiting_append_ticked, decide_eq_true_eq]
    | created a => rw [pendingStep, ih, waiting_append_created]

/-- Waiting enrollments are listed by increasing position. -/
theorem pending_positions_increasing (L : List CronAction) :
    ((pending L).map (·.1)).Pairwise (· < ·) := by
  induction L using List.reverseRecOn with
  | nil => simp [pending, pendingFrom]
  | append_singleton L a ih =>
    rw [pending_append_singleton]
    cases a with
    | enrolled k ev =>
      simp only [pendingStep, List.map_append, List.map_cons, List.map_nil,
        List.pairwise_append, List.pairwise_singleton, List.mem_singleton, true_and, ih]
      rintro _ hp _ rfl
      obtain ⟨⟨i, k', ev'⟩, hm, rfl⟩ := List.mem_map.mp hp
      exact (mem_pending_iff.mp hm).lt_length
    | ticked t C sent =>
      exact ih.sublist ((List.filter_sublist _).map _)
    | created a => exact ih

/-- A position names one waiting entry. -/
theorem pending_entry_unique {L : List CronAction} {i : Nat} {k k' : Int} {ev ev' : CronEvent}
    (h : (i, k, ev) ∈ pending L) (h' : (i, k', ev') ∈ pending L) : k = k' ∧ ev = ev' := by
  have he := (mem_pending_iff.mp h).1
  rw [(mem_pending_iff.mp h').1] at he
  cases he
  exact ⟨rfl, rfl⟩

/-- The waiting enrollments due at epoch `e` whose miner has a claim in `C`. -/
def dueAt (L : List CronAction) (C : AList (fun _ : Address => Claim)) (e : Int) :
    List (Nat × Int × CronEvent) :=
  (pending L).filter fun p => p.2.1 = e ∧ (C.lookup p.2.2.minerAddr).isSome

section DueAt

variable {L : List CronAction} {C : AList (fun _ : Address => Claim)} {e : Int}

@[simp] theorem mem_dueAt {p : Nat × Int × CronEvent} :
    p ∈ dueAt L C e ↔ p ∈ pending L ∧ p.2.1 = e ∧ (C.lookup p.2.2.minerAddr).isSome := by
  simp only [dueAt, List.mem_filter, decide_eq_true_eq]

variable (L C e)

/-- Walking the epochs from `e` meets each waiting position at most once. -/
theorem flatMap_dueAt_positions_nodup (n : Nat) :
    (((List.range n).flatMap fun d => dueAt L C (e + d)).map (·.1)).Nodup := by
  rw [List.map_flatMap, List.nodup_flatMap]
  refine ⟨fun d _ => ((pending_positions_increasing L).sublist
    ((List.filter_sublist _).map _)).imp Nat.ne_of_lt,
    (List.pairwise_lt_range _).imp fun {d₁ d₂} hlt x hx₁ hx₂ => ?_⟩
  obtain ⟨⟨i, k₁, ev₁⟩, hp₁, rfl⟩ := List.mem_map.mp hx₁
  obtain ⟨⟨i', k₂, ev₂⟩, hp₂, rfl : i' = i⟩ := List.mem_map.mp hx₂
  rw [mem_dueAt] at hp₁ hp₂
  have same := (pending_entry_unique hp₁.1 hp₂.1).1
  have at₁ : k₁ = e + d₁ := hp₁.2.1
  have at₂ : k₂ = e + d₂ := hp₂.2.1
  omega

/-- Walking the epochs from `e` lists the events in non-decreasing epoch order. -/
theorem flatMap_dueAt_epochs_sorted (n : Nat) :
    (((List.range n).flatMap fun d => dueAt L C (e + d)).map (·.2.1)).Pairwise (· ≤ ·) := by
  have epoch : ∀ d x, x ∈ (dueAt L C (e + d)).map (·.2.1) → x = e + d := fun d x hx => by
    obtain ⟨p, hp, rfl⟩ := List.mem_map.mp hx
    exact (mem_dueAt.mp hp).2.1
  rw [List.map_flatMap, List.pairwise_flatMap]
  refine ⟨fun d _ => List.pairwise_of_forall_mem_list fun x hx y hy => ?_,
    (List.pairwise_lt_range _).imp fun {d₁ d₂} hlt x hx y hy => ?_⟩
  · rw [epoch d x hx, epoch d y hy]
  · rw [epoch d₁ x hx, epoch d₂ y hy]
    omega

end DueAt

section Serving

variable {L : List CronAction} {i j : Nat}

/-- An enrollment is served by one tick at most. -/
theorem Serves.unique {j' : Nat} (h : Serves L i j) (h' : Serves L i j') : j = j' := by
  obtain ⟨k, ev, t, C, sent, he, ht, hij, hkt, hfirst⟩ := h
  obtain ⟨k', ev', t', C', sent', he', ht', hij', hkt', hfirst'⟩ := h'
  rw [he] at he'
  cases he'
  rcases Nat.lt_trichotomy j j' with hlt | heq | hlt
  · exact absurd (hfirst' j t C sent hij hlt ht) (not_lt.mpr hkt)
  · exact heq
  · exact absurd (hfirst j' t' C' sent' hij' hlt ht') (not_lt.mpr hkt')

/-- Later entries do not change which tick serves an enrollment. -/
theorem serves_append_iff (M : List CronAction) (hj : j < L.length) :
    Serves (L ++ M) i j ↔ Serves L i j := by
  have hget : ∀ j', j' < L.length → (L ++ M)[j']? = L[j']? := fun j' h =>
    List.getElem?_append_left h
  unfold Serves
  constructor
  · rintro ⟨k, ev, t, C, sent, he, ht, hij, hkt, hfirst⟩
    refine ⟨k, ev, t, C, sent, (hget i (by omega)) ▸ he, (hget j hj) ▸ ht, hij, hkt,
      fun j' t' C' sent' h₁ h₂ h₃ => hfirst j' t' C' sent' h₁ h₂ ?_⟩
    rw [hget j' (by omega)]
    exact h₃
  · rintro ⟨k, ev, t, C, sent, he, ht, hij, hkt, hfirst⟩
    refine ⟨k, ev, t, C, sent, (hget i (by omega)).symm ▸ he, (hget j hj).symm ▸ ht, hij, hkt,
      fun j' t' C' sent' h₁ h₂ h₃ => hfirst j' t' C' sent' h₁ h₂ ?_⟩
    rw [← hget j' (by omega)]
    exact h₃

/-- A tick appended to the history serves exactly the waiting enrollments it has reached. -/
theorem serves_append_ticked_iff {t : Int} {C : AList (fun _ : Address => Claim)}
    {sent : List CronEvent} {k : Int} {ev : CronEvent} :
    (L ++ [.ticked t C sent])[i]? = some (.enrolled k ev) ∧
      Serves (L ++ [.ticked t C sent]) i L.length ↔ Waiting L i k ev ∧ k ≤ t := by
  constructor
  · rintro ⟨he, k', ev', t', C', sent', he', ht, hi, hkt, hfirst⟩
    rw [he] at he'
    cases he'
    simp only [List.getElem?_concat_length, Option.some.injEq, CronAction.ticked.injEq] at ht
    obtain ⟨rfl, -, -⟩ := ht
    refine ⟨⟨(List.getElem?_append_left hi).symm.trans he,
      fun j t'' C'' sent'' hij hj => hfirst j t'' C'' sent'' hij
        ((List.getElem?_eq_some_iff.mp hj).1) ?_⟩, hkt⟩
    rw [List.getElem?_append_left ((List.getElem?_eq_some_iff.mp hj).1)]
    exact hj
  · rintro ⟨⟨he, hw⟩, hkt⟩
    have hi := Waiting.lt_length ⟨he, hw⟩
    have he' : (L ++ [CronAction.ticked t C sent])[i]? = some (.enrolled k ev) :=
      (List.getElem?_append_left hi).trans he
    refine ⟨he', k, ev, t, C, sent, he', by simp, hi, hkt, fun j' t' C' sent' h₁ h₂ h₃ => ?_⟩
    rw [List.getElem?_append_left h₂] at h₃
    exact hw j' t' C' sent' h₁ h₃

theorem Serves.lt {L : List CronAction} {i j : Nat} (h : Serves L i j) : i < j := by
  obtain ⟨_, _, _, _, _, _, _, hij, _⟩ := h
  exact hij

/-- A later tick that reaches the event's epoch means some tick serves the enrollment: the
first such tick. -/
theorem exists_serves {k : Int} {ev : CronEvent} (he : L[i]? = some (.enrolled k ev)) (j : Nat) :
    i < j → ∀ t C sent, L[j]? = some (.ticked t C sent) → k ≤ t → ∃ j, Serves L i j := by
  induction j using Nat.strongRecOn with
  | ind j ih =>
    intro hij t C sent ht hkt
    by_cases hfirst : ∀ j' t' C' sent', i < j' → j' < j →
        L[j']? = some (.ticked t' C' sent') → t' < k
    · exact ⟨j, k, ev, t, C, sent, he, ht, hij, hkt, hfirst⟩
    · simp only [not_forall, not_lt] at hfirst
      obtain ⟨j', t', C', sent', h₁, h₂, h₃, h₄⟩ := hfirst
      exact ih j' h₂ h₁ t' C' sent' h₃ h₄

/-- Waiting is having no serving tick yet. -/
theorem waiting_iff_not_serves {k : Int} {ev : CronEvent} :
    Waiting L i k ev ↔ L[i]? = some (.enrolled k ev) ∧ ∀ j, ¬Serves L i j := by
  constructor
  · rintro ⟨he, hw⟩
    refine ⟨he, fun j ⟨k', ev', t, C, sent, he', ht, hij, hkt, _⟩ => ?_⟩
    rw [he] at he'
    cases he'
    exact absurd (hw j t C sent hij ht) (not_lt.mpr hkt)
  · rintro ⟨he, hns⟩
    refine ⟨he, fun j t C sent hij ht => ?_⟩
    by_contra hkt
    obtain ⟨j', hs⟩ := exists_serves he j hij t C sent ht (not_lt.mp hkt)
    exact hns j' hs

end Serving

section Collect

variable (claims : AList (fun _ : Address => Claim))

theorem loadCronEvents_erase (q : AList (fun _ : Int => List CronEvent)) (e k : Int) :
    loadCronEvents (q.erase e) k = if k = e then [] else loadCronEvents q k := by
  unfold loadCronEvents
  split_ifs with h
  · subst h
    rw [AList.lookup_erase]
    rfl
  · rw [AList.lookup_erase_ne h]

theorem collectLoop_succ (n : Nat) (e : Int) (q : AList (fun _ : Int => List CronEvent)) :
    collectLoop claims (n + 1) e q =
      if (loadCronEvents q e).isEmpty then collectLoop claims n (e + 1) q
      else ((collectLoop claims n (e + 1) (q.erase e)).1,
        (loadCronEvents q e).filter (fun evt => (claims.lookup evt.minerAddr).isSome) ++
          (collectLoop claims n (e + 1) (q.erase e)).2) := rfl

/-- The loop clears exactly the epochs it walks. -/
theorem loadCronEvents_collectLoop (n : Nat) (e : Int) (q : AList (fun _ : Int => List CronEvent))
    (k : Int) :
    loadCronEvents (collectLoop claims n e q).1 k =
      if e ≤ k ∧ k < e + n then [] else loadCronEvents q k := by
  induction n generalizing e q with
  | zero => rw [if_neg (by omega)]; rfl
  | succ n ih =>
    rw [collectLoop_succ]
    by_cases h : (loadCronEvents q e).isEmpty
    · rw [if_pos h, ih]
      by_cases hk : k = e
      · subst hk
        rw [if_neg (by omega), if_pos (by omega), List.isEmpty_iff.mp h]
      · split_ifs <;> first | rfl | omega
    · rw [if_neg h, ih, loadCronEvents_erase]
      split_ifs <;> first | rfl | omega

/-- The loop sends, epoch by epoch from `e`, the events of miners with a claim. -/
theorem collectLoop_snd (n : Nat) (e : Int) (q : AList (fun _ : Int => List CronEvent)) :
    (collectLoop claims n e q).2 = (List.range n).flatMap fun d =>
      (loadCronEvents q (e + d)).filter fun evt => (claims.lookup evt.minerAddr).isSome := by
  induction n generalizing e q with
  | zero => rfl
  | succ n ih =>
    rw [collectLoop_succ, List.range_succ_eq_map, List.flatMap_cons, List.flatMap_map]
    have hzero : e + ((0 : Nat) : Int) = e := by omega
    have hshift : ∀ d : Nat, e + 1 + (d : Int) = e + ((Nat.succ d : Nat) : Int) := fun d => by
      omega
    by_cases h : (loadCronEvents q e).isEmpty
    · rw [if_pos h, ih, hzero, List.isEmpty_iff.mp h, List.filter_nil, List.nil_append]
      simp only [Function.comp_def, hshift]
    · have hne : ∀ d : Nat, (e + 1 + (d : Int) = e) = False := fun d => eq_false (by omega)
      rw [if_neg h, ih, hzero]
      simp only [Function.comp_def, ← hshift, loadCronEvents_erase, hne, if_false]

end Collect

/-- The cron queue holds the waiting enrollments' events, by epoch and in enrollment order,
none of them before `first_cron_epoch`; and every tick so far sent what it should. -/
structure CronInv (st : State) (L : List CronAction) : Prop where
  queue : ∀ k, loadCronEvents st.cronEventQueue k =
    ((pending L).filter fun p => p.2.1 = k).map (·.2.2)
  first : ∀ p ∈ pending L, st.firstCronEpoch ≤ p.2.1
  ticks : ∀ j t C sent, L[j]? = some (.ticked t C sent) → TickSent L j C sent

theorem TickSent.append {L : List CronAction} {j : Nat} {C : AList (fun _ : Address => Claim)}
    {sent : List CronEvent} (h : TickSent L j C sent) (hj : j < L.length) (M : List CronAction) :
    TickSent (L ++ M) j C sent := by
  obtain ⟨served, hs, hnd, hmem, hsort⟩ := h
  refine ⟨served, hs, hnd, fun i k ev => ?_, hsort⟩
  rw [hmem, serves_append_iff M hj]
  constructor
  · rintro ⟨he, hsv, hc⟩
    exact ⟨(List.getElem?_append_left (by have := hsv.lt; omega)).trans he, hsv, hc⟩
  · rintro ⟨he, hsv, hc⟩
    exact ⟨(List.getElem?_append_left (by have := hsv.lt; omega)).symm.trans he, hsv, hc⟩

theorem ticks_append_singleton {L : List CronAction} {a : CronAction}
    (h : ∀ j t C sent, L[j]? = some (.ticked t C sent) → TickSent L j C sent)
    (hnew : ∀ t C sent, a = .ticked t C sent → TickSent (L ++ [a]) L.length C sent) :
    ∀ j t C sent, (L ++ [a])[j]? = some (.ticked t C sent) → TickSent (L ++ [a]) j C sent := by
  intro j t C sent hj
  rcases getElem?_append_singleton_of_eq_some hj with ⟨hlt, hx⟩ | ⟨rfl, hx⟩
  · exact (h j t C sent hx).append hlt [a]
  · exact hnew t C sent hx

theorem loadCronEvents_insert (q : AList (fun _ : Int => List CronEvent)) (e : Int)
    (v : List CronEvent) (k : Int) :
    loadCronEvents (q.insert e v) k = if k = e then v else loadCronEvents q k := by
  unfold loadCronEvents
  split_ifs with h
  · subst h
    rw [AList.lookup_insert]
    rfl
  · rw [AList.lookup_insert_ne h]

namespace CronInv

variable {st st' : State} {L : List CronAction}

theorem initial (policy : Policy) : CronInv (State.new policy) [] :=
  ⟨fun _ => rfl, by simp [pending, pendingFrom], by simp⟩

theorem of_cron_eq (h : CronInv st L) (hq : st'.cronEventQueue = st.cronEventQueue)
    (hf : st'.firstCronEpoch = st.firstCronEpoch) : CronInv st' L :=
  ⟨hq ▸ h.queue, hf ▸ h.first, h.ticks⟩

theorem created (h : CronInv st L) {M : List CronAction} (hM : ∀ x ∈ M, x.IsCreated) :
    CronInv st (L ++ M) := by
  induction M generalizing L with
  | nil => rwa [List.append_nil]
  | cons x M ih =>
    obtain ⟨a, rfl⟩ := hM x (List.mem_cons_self _ _)
    rw [← List.singleton_append, ← List.append_assoc]
    refine ih ⟨?_, ?_, ticks_append_singleton h.ticks fun _ _ _ h => nomatch h⟩
      fun x hx => hM x (List.mem_cons_of_mem _ hx)
    · rw [pending_append_singleton]
      exact h.queue
    · rw [pending_append_singleton]
      exact h.first

/-- An enrollment joins the queue at its epoch, behind the events already there. -/
theorem appendCronEvent (h : CronInv st L) (k : Int) (ev : CronEvent) :
    CronInv (resultState (Power.appendCronEvent k ev st)) (L ++ [.enrolled k ev]) := by
  rw [appendCronEvent_eq, resultState_ok]
  refine ⟨fun k' => ?_, fun p hp => ?_, ticks_append_singleton h.ticks fun _ _ _ h => nomatch h⟩
  · rw [pending_append_singleton, pendingStep, loadCronEvents_insert, List.filter_append]
    by_cases hk : k' = k
    · subst hk
      simp [h.queue]
    · simp [hk, Ne.symm hk, h.queue]
  · rw [pending_append_singleton, pendingStep, List.mem_append, List.mem_singleton] at hp
    rcases hp with hp | rfl
    · exact le_trans (min_le_right _ _) (h.first p hp)
    · exact min_le_left _ _

/-- The tick's collection sends the waiting events it has reached whose miner has a claim,
epoch by epoch, each once. -/
theorem tickSent_collectLoop (h : CronInv st L) (t : Int) :
    TickSent
      (L ++ [.ticked t st.claims (collectLoop st.claims (t + 1 - st.firstCronEpoch).toNat
        st.firstCronEpoch st.cronEventQueue).2])
      L.length st.claims
      (collectLoop st.claims (t + 1 - st.firstCronEpoch).toNat st.firstCronEpoch
        st.cronEventQueue).2 := by
  refine ⟨(List.range (t + 1 - st.firstCronEpoch).toNat).flatMap fun d =>
      dueAt L st.claims (st.firstCronEpoch + d), ?_,
    flatMap_dueAt_positions_nodup _ _ _ _, fun i k ev => ?_,
    flatMap_dueAt_epochs_sorted _ _ _ _⟩
  · rw [collectLoop_snd, List.map_flatMap]
    congr 1
    funext d
    rw [h.queue, List.filter_map, dueAt, List.filter_filter]
    congr 1
    apply List.filter_congr
    intro p _
    simp [Bool.and_comm]
  · simp only [List.mem_flatMap, List.mem_range, mem_dueAt]
    constructor
    · rintro ⟨d, hd, hp, hkd, hc⟩
      have hkt : k ≤ t := by omega
      exact and_assoc.mp ⟨serves_append_ticked_iff.mpr ⟨mem_pending_iff.mp hp, hkt⟩, hc⟩
    · rintro ⟨he, hsv, hc⟩
      obtain ⟨hw, hkt⟩ := serves_append_ticked_iff.mp ⟨he, hsv⟩
      have hp := mem_pending_iff.mpr hw
      have hfirst := h.first _ hp
      dsimp only at hfirst
      exact ⟨(k - st.firstCronEpoch).toNat, by omega, hp, by omega, hc⟩

/-- The collection transaction clears every epoch up to the tick's and moves
`first_cron_epoch` past it. -/
theorem collect (h : CronInv st L) (t : Int) :
    CronInv
      { st with
        cronEventQueue := (collectLoop st.claims (t + 1 - st.firstCronEpoch).toNat
          st.firstCronEpoch st.cronEventQueue).1,
        firstCronEpoch := t + 1 }
      (L ++ [.ticked t st.claims (collectLoop st.claims (t + 1 - st.firstCronEpoch).toNat
        st.firstCronEpoch st.cronEventQueue).2]) := by
  refine ⟨fun k => ?_, fun p hp => ?_,
    ticks_append_singleton h.ticks fun _ _ _ he => by cases he; exact h.tickSent_collectLoop t⟩
  · rw [loadCronEvents_collectLoop, pending_append_singleton, pendingStep, List.filter_filter]
    by_cases hkt : k ≤ t
    · have hnil : ((pending L).filter fun p => decide (p.2.1 = k) && decide (t < p.2.1)) = [] :=
        List.filter_eq_nil_iff.mpr fun p _ => by simp only [Bool.and_eq_true, decide_eq_true_eq]; omega
      rw [hnil, List.map_nil]
      split_ifs with hk
      · rfl
      · rw [h.queue, List.map_eq_nil_iff, List.filter_eq_nil_iff]
        intro p hp hpk
        have := h.first p hp
        simp only [decide_eq_true_eq] at hpk
        omega
    · rw [if_neg (by omega), h.queue]
      congr 1
      apply List.filter_congr
      intro p _
      by_cases hpk : p.2.1 = k <;> simp [hpk]; omega
  · rw [pending_append_singleton, pendingStep, List.mem_filter, decide_eq_true_eq] at hp
    exact hp.2

end CronInv

theorem applyCall_cronInv (policy : Policy) {st : State} {L : List CronAction} (c : Call)
    (h : CronInv st L) : CronInv (applyCall policy st c).1 (L ++ (applyCall policy st c).2) := by
  rcases applyCall_cases policy st c with ⟨hl, hlog⟩ | ⟨k, ev, -, he⟩ | ⟨delta, -, he⟩
  · exact (h.of_cron_eq hl.cronEventQueue hl.firstCronEpoch).created hlog
  · rw [he]
    exact h.appendCronEvent k ev
  · rw [he, List.append_nil]
    exact h.of_cron_eq rfl rfl

/-- A tick collects, runs the callbacks (whose enrollments join the queue behind it), removes
failed miners and snapshots, and keeps the invariant throughout. -/
theorem step_cronInv (policy : Policy) {st : State} {L : List CronAction} (m : Msg)
    (h : CronInv st L) : CronInv (step policy st m).1 (L ++ (step policy st m).2) := by
  cases m with
  | call c => exact applyCall_cronInv policy c h
  | onEpochTickEnd env =>
    rw [step_onEpochTickEnd]
    split_ifs
    · dsimp only
      rw [sendCallbacks_sent, ← List.singleton_append, ← List.append_assoc, snapshotTotals_eq,
        resultState_ok]
      exact CronInv.of_cron_eq
        (sendCallbacks_preserves policy CronInv (fun _ _ c h => applyCall_cronInv policy c h) _
          env.callbacks _ (h.collect env.currEpoch))
        (removeFailedMiners_ledgerOnly policy _ _).cronEventQueue
        (removeFailedMiners_ledgerOnly policy _ _).firstCronEpoch
    · rw [List.append_nil]
      exact h

/-- Every cron event enrolled in a run of the power actor is taken out of the queue by one
tick, the first after its enrollment whose epoch reaches the event's epoch; that tick sends
its callback once if the miner has a claim then, and not otherwise; each tick sends its
events in non-decreasing epoch order; and the queue holds exactly the enrollments no tick has
served yet, in enrollment order. -/
theorem run_cronEvents_served_once (policy : Policy) (ms : List Msg) :
    (∀ i j j', Serves (run policy (State.new policy) ms).2 i j →
      Serves (run policy (State.new policy) ms).2 i j' → j = j') ∧
    (∀ j t C sent, (run policy (State.new policy) ms).2[j]? = some (.ticked t C sent) →
      TickSent (run policy (State.new policy) ms).2 j C sent) ∧
    (∀ k, ∃ waiting : List (Nat × CronEvent),
      loadCronEvents (run policy (State.new policy) ms).1.cronEventQueue k =
        waiting.map (·.2) ∧
      (waiting.map (·.1)).Pairwise (· < ·) ∧
      ∀ i ev, (i, ev) ∈ waiting ↔
        (run policy (State.new policy) ms).2[i]? = some (.enrolled k ev) ∧
          ∀ j, ¬Serves (run policy (State.new policy) ms).2 i j) := by
  have hinv : CronInv (run policy (State.new policy) ms).1 (run policy (State.new policy) ms).2 := by
    have := run_preserves policy CronInv ms (fun m _ _ _ h => step_cronInv policy m h) []
      (CronInv.initial policy)
    rwa [List.nil_append] at this
  refine ⟨fun i j j' h h' => h.unique h', hinv.ticks, fun k => ?_⟩
  refine ⟨((pending (run policy (State.new policy) ms).2).filter fun p => p.2.1 = k).map
    fun p => (p.1, p.2.2), ?_, ?_, fun i ev => ?_⟩
  · rw [hinv.queue, List.map_map]
    rfl
  · rw [List.map_map]
    exact (pending_positions_increasing _).sublist ((List.filter_sublist _).map _)
  · rw [← waiting_iff_not_serves, ← mem_pending_iff]
    simp only [List.mem_map, List.mem_filter, decide_eq_true_eq, Prod.mk.injEq]
    constructor
    · rintro ⟨⟨i', k', ev'⟩, ⟨hp, rfl⟩, rfl, rfl⟩
      exact hp
    · intro hp
      exact ⟨(i, k, ev), ⟨hp, rfl⟩, rfl, rfl⟩

end BuiltinActors.Power
