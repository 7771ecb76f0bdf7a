import BuiltinActors.Multisig.State

namespace BuiltinActors.Multisig

section IndexMap

variable {α β : Type} [DecidableEq α] {m : List (α × β)} {k : α} {v : β}

theorem indexMapInsert_of_not_mem (h : k ∉ m.map Prod.fst) :
    indexMapInsert m k v = m ++ [(k, v)] := if_neg h

theorem indexMapInsert_keys :
    (indexMapInsert m k v).map Prod.fst =
      if k ∈ m.map Prod.fst then m.map Prod.fst else m.map Prod.fst ++ [k] := by
  unfold indexMapInsert
  split_ifs with h
  · simp only [List.map_map]
    congr 1
    funext e
    by_cases he : e.1 = k <;> simp [he]
  · simp

/-- Inserting the same entry twice is inserting it once. -/
theorem indexMapInsert_idem :
    indexMapInsert (indexMapInsert m k v) k v = indexMapInsert m k v := by
  have hk : k ∈ (indexMapInsert m k v).map Prod.fst := by
    rw [indexMapInsert_keys]; split_ifs with h <;> simp [h]
  rw [indexMapInsert, if_pos hk]
  unfold indexMapInsert
  split_ifs with h
  · rw [List.map_map]
    congr 1
    funext e
    by_cases he : e.1 = k <;> simp [he]
  · rw [List.map_append]
    simp only [List.map_cons, List.map_nil, if_true]
    have hfix : ∀ e ∈ m, (if e.1 = k then (k, v) else e) = e := fun e he =>
      if_neg fun (he' : e.1 = k) => h (he' ▸ List.mem_map_of_mem Prod.fst he)
    rw [List.map_congr_left hfix, List.map_id']

end IndexMap

/-- The transactions `addr` approves, in iteration order. -/
def approvedBy (addr : Address) (txns : List (Σ _ : Int, Transaction)) :
    List (Int × Transaction) :=
  (txns.filter fun e => addr ∈ e.2.approved).map fun e => (e.1, e.2)

/-- What the update pass writes under a purged id: the transaction without `addr`, or
nothing once no approver remains. -/
def retainOthers (addr : Address) (txn : Transaction) : Option Transaction :=
  let kept : Transaction := { txn with approved := txn.approved.filter (· ≠ addr) }
  if kept.approved.isEmpty then none else some kept

theorem retainOthers_eq (addr : Address) (txn : Transaction) :
    retainOthers addr txn = if (txn.approved.filter (· ≠ addr)).isEmpty then none
      else some ⟨txn.approved.filter (· ≠ addr)⟩ := rfl

/-- The entry `purge_approvals` should leave under an id that held `txn`. -/
def purgedEntry (addr : Address) (txn : Transaction) : Option Transaction :=
  if addr ∈ txn.approved then retainOthers addr txn else some txn

/-- The approver loop of one transaction inserts it once if `addr` approves it at all. -/
theorem foldl_insert_if_eq (addr : Address) (k : Int) (txn : Transaction) (as : List Address)
    (acc : List (Int × Transaction)) :
    as.foldl (fun acc approver => if approver = addr then indexMapInsert acc k txn else acc) acc =
      if addr ∈ as then indexMapInsert acc k txn else acc := by
  induction as generalizing acc with
  | nil => simp
  | cons a as ih =>
    rw [List.foldl_cons, ih]
    by_cases ha : a = addr
    · subst ha; simp [indexMapInsert_idem]
    · simp [ha, Ne.symm ha]

theorem approvedBy_keys (addr : Address) (txns : List (Σ _ : Int, Transaction)) :
    (approvedBy addr txns).map Prod.fst = (txns.filter fun e => addr ∈ e.2.approved).keys := by
  simp [approvedBy, List.keys, List.map_map, Function.comp_def]

theorem mem_approvedBy {addr : Address} {txns : List (Σ _ : Int, Transaction)} {k : Int}
    {t : Transaction} : (k, t) ∈ approvedBy addr txns ↔ ⟨k, t⟩ ∈ txns ∧ addr ∈ t.approved := by
  simp only [approvedBy, List.mem_map, List.mem_filter, decide_eq_true_eq, Prod.mk.injEq]
  constructor
  · rintro ⟨⟨k', t'⟩, ⟨hm, ha⟩, rfl, rfl⟩; exact ⟨hm, ha⟩
  · rintro ⟨hm, ha⟩; exact ⟨⟨k, t⟩, ⟨hm, ha⟩, rfl, rfl⟩

/-- Over a map's entries (distinct ids), the `for_each` pass collects exactly the
transactions `addr` approves, each once, in iteration order. -/
theorem purgeCandidates_eq (addr : Address) (txns : List (Σ _ : Int, Transaction))
    (hnd : txns.NodupKeys) : purgeCandidates addr txns = approvedBy addr txns := by
  suffices h : ∀ acc : List (Int × Transaction), (∀ k ∈ txns.keys, k ∉ acc.map Prod.fst) →
      txns.foldl (fun acc e => e.2.approved.foldl (fun acc approver =>
        if approver = addr then indexMapInsert acc e.1 e.2 else acc) acc) acc =
        acc ++ approvedBy addr txns by
    simpa using h [] (by simp)
  induction txns with
  | nil => simp [approvedBy]
  | cons e rest ih =>
    intro acc hacc
    have hnd' := List.nodupKeys_cons.mp hnd
    have he : e.1 ∉ acc.map Prod.fst := hacc e.1 (by simp [List.keys])
    rw [List.foldl_cons, foldl_insert_if_eq, indexMapInsert_of_not_mem he]
    by_cases ha : addr ∈ e.2.approved
    · rw [if_pos ha, ih hnd'.2]
      · simp [approvedBy, ha]
      · intro k hk
        simp only [List.map_append, List.mem_append, List.map_cons, List.map_nil,
          List.mem_singleton, not_or]
        exact ⟨hacc k (by simp [List.keys_cons, hk]), fun h => hnd'.1 (h ▸ hk)⟩
    · rw [if_neg ha, ih hnd'.2 acc fun k hk => hacc k (by simp [List.keys_cons, hk])]
      simp [approvedBy, ha]

section Update

variable (addr : Address)

theorem purgeUpdate_cons (txns : AList (fun _ : Int => Transaction)) (p : Int × Transaction)
    (ps : List (Int × Transaction)) :
    purgeUpdate addr txns (p :: ps) = purgeUpdate addr
      (if !(p.2.approved.filter (· ≠ addr)).isEmpty
        then txns.insert p.1 ⟨p.2.approved.filter (· ≠ addr)⟩ else txns.erase p.1) ps := rfl

/-- One update step writes `retainOthers` under its id and nothing elsewhere. -/
theorem lookup_purgeStep (txns : AList (fun _ : Int => Transaction)) (k k' : Int)
    (t : Transaction) :
    (if !(t.approved.filter (· ≠ addr)).isEmpty
      then txns.insert k' ⟨t.approved.filter (· ≠ addr)⟩ else txns.erase k').lookup k =
      if k = k' then retainOthers addr t else txns.lookup k := by
  rw [retainOthers_eq]
  by_cases hk : k = k'
  · subst hk
    cases (t.approved.filter (· ≠ addr)).isEmpty <;> simp [AList.lookup_insert, AList.lookup_erase]
  · rw [if_neg hk]
    split_ifs <;> simp [AList.lookup_insert_ne hk, AList.lookup_erase_ne hk]

theorem purgeUpdate_lookup_of_not_mem (txns : AList (fun _ : Int => Transaction))
    (ps : List (Int × Transaction)) {k : Int} (hk : k ∉ ps.map Prod.fst) :
    (purgeUpdate addr txns ps).lookup k = txns.lookup k := by
  induction ps generalizing txns with
  | nil => rfl
  | cons p ps ih =>
    simp only [List.map_cons, List.mem_cons, not_or] at hk
    rw [purgeUpdate_cons, ih _ hk.2, lookup_purgeStep, if_neg hk.1]

theorem purgeUpdate_lookup_of_mem (txns : AList (fun _ : Int => Transaction))
    (ps : List (Int × Transaction)) (hnd : (ps.map Prod.fst).Nodup) {k : Int}
    {t : Transaction} (hkt : (k, t) ∈ ps) :
    (purgeUpdate addr txns ps).lookup k = retainOthers addr t := by
  induction ps generalizing txns with
  | nil => simp at hkt
  | cons p ps ih =>
    rw [List.map_cons, List.nodup_cons] at hnd
    rw [purgeUpdate_cons]
    rcases List.mem_cons.mp hkt with rfl | hm
    · rw [purgeUpdate_lookup_of_not_mem _ _ _ hnd.1, lookup_purgeStep, if_pos rfl]
    · exact ih _ hnd.2 hm

end Update

theorem purgeApprovals_lookup (st : State) (addr : Address) (id : Int) :
    (st.purgeApprovals addr).pendingTxs.lookup id =
      (st.pendingTxs.lookup id).bind (purgedEntry addr) := by
  have hnd := st.pendingTxs.nodupKeys
  show (purgeUpdate addr st.pendingTxs (purgeCandidates addr st.pendingTxs.entries)).lookup id = _
  rw [purgeCandidates_eq addr _ hnd]
  have hkeys : ((approvedBy addr st.pendingTxs.entries).map Prod.fst).Nodup := by
    rw [approvedBy_keys]; exact hnd.sublist (List.filter_sublist _)
  by_cases hm : ∃ t, (id, t) ∈ approvedBy addr st.pendingTxs.entries
  · obtain ⟨t, ht⟩ := hm
    obtain ⟨he, ha⟩ := mem_approvedBy.mp ht
    rw [purgeUpdate_lookup_of_mem _ _ _ hkeys ht, Option.mem_def.mp (AList.mem_lookup_iff.mpr he)]
    simp [purgedEntry, ha]
  · have hk : id ∉ (approvedBy addr st.pendingTxs.entries).map Prod.fst := by
      intro h
      obtain ⟨⟨k, t⟩, hp, rfl⟩ := List.mem_map.mp h
      exact hm ⟨t, hp⟩
    rw [purgeUpdate_lookup_of_not_mem _ _ _ hk]
    cases hl : st.pendingTxs.lookup id with
    | none => rfl
    | some t =>
      have ha : addr ∉ t.approved := fun ha =>
        hm ⟨t, mem_approvedBy.mpr ⟨AList.mem_lookup_iff.mp hl, ha⟩⟩
      simp [purgedEntry, ha]

theorem purgedEntry_not_mem {addr : Address} {t t' : Transaction}
    (h : purgedEntry addr t = some t') : addr ∉ t'.approved := by
  unfold purgedEntry at h
  rw [retainOthers_eq] at h
  split_ifs at h with ha <;> cases h
  · simp
  · exact ha

theorem purgedEntry_ne_nil {addr : Address} {t t' : Transaction} (hne : t.approved ≠ [])
    (h : purgedEntry addr t = some t') : t'.approved ≠ [] := by
  unfold purgedEntry at h
  rw [retainOthers_eq] at h
  split_ifs at h with ha hb <;> cases h
  · simpa using hb
  · exact hne

theorem purgeApprovals_pendingTxs (st : State) (addr : Address) :
    (∀ id, (st.purgeApprovals addr).pendingTxs.lookup id =
      (st.pendingTxs.lookup id).bind (purgedEntry addr)) ∧
    (∀ id txn, (st.purgeApprovals addr).pendingTxs.lookup id = some txn →
      addr ∉ txn.approved) ∧
    ((∀ id txn, st.pendingTxs.lookup id = some txn → txn.approved ≠ []) →
      ∀ id txn, (st.purgeApprovals addr).pendingTxs.lookup id = some txn →
        txn.approved ≠ []) := by
  refine ⟨purgeApprovals_lookup st addr, fun id txn h => ?_, fun hall id txn h => ?_⟩ <;>
    rw [purgeApprovals_lookup] at h <;>
    obtain ⟨t, ht, he⟩ := Option.bind_eq_some.mp h
  · exact purgedEntry_not_mem he
  · exact purgedEntry_ne_nil (hall id t ht) he

/-- `purgedEntry` in one piece: the approvers other than `addr`, and no entry once `addr` was
the last of them. -/
theorem purgedEntry_eq (addr : Address) (t : Transaction) :
    purgedEntry addr t = if addr ∈ t.approved ∧ t.approved.filter (· ≠ addr) = [] then none
      else some ⟨t.approved.filter (· ≠ addr)⟩ := by
  unfold purgedEntry
  by_cases ha : addr ∈ t.approved
  · rw [if_pos ha, retainOthers_eq]
    simp only [ha, true_and, List.isEmpty_iff]
  · have keep : t.approved.filter (· ≠ addr) = t.approved := List.filter_eq_self.mpr fun x hx =>
      decide_eq_true fun h => ha (h ▸ hx)
    rw [if_neg ha, if_neg fun h => ha h.1, keep]

/-- Purging `a` and then `b` keeps the approvers other than both, and drops the transaction
once one of them approved it and no one else does. -/
theorem purgedEntry_bind (a b : Address) (t : Transaction) :
    (purgedEntry a t).bind (purgedEntry b) =
      if (a ∈ t.approved ∨ b ∈ t.approved) ∧ t.approved.filter (fun x => x ≠ a ∧ x ≠ b) = []
      then none else some ⟨t.approved.filter fun x => x ≠ a ∧ x ≠ b⟩ := by
  obtain ⟨L⟩ := t
  have both : (L.filter (· ≠ a)).filter (· ≠ b) = L.filter fun x => x ≠ a ∧ x ≠ b := by
    rw [List.filter_filter]
    exact List.filter_congr fun x _ => by simp only [Bool.and_comm, Bool.decide_and]
  rw [purgedEntry_eq a]
  dsimp only
  by_cases first : a ∈ L ∧ L.filter (· ≠ a) = []
  · have gone : L.filter (fun x => x ≠ a ∧ x ≠ b) = [] := by
      rw [← both, first.2]
      rfl
    rw [if_pos first, if_pos ⟨.inl first.1, gone⟩]
    rfl
  · rw [if_neg first, Option.some_bind, purgedEntry_eq b]
    dsimp only
    rw [both]
    by_cases second : b ∈ L.filter (· ≠ a) ∧ L.filter (fun x => x ≠ a ∧ x ≠ b) = []
    · rw [if_pos second, if_pos ⟨.inr (List.mem_filter.mp second.1).1, second.2⟩]
    · rw [if_neg second, if_neg]
      rintro ⟨approved, gone⟩
      have cover : ∀ x ∈ L, x = a ∨ x = b := fun x hx => by
        have := List.filter_eq_nil_iff.mp gone x hx
        simp only [decide_eq_true_eq, not_and_or, ne_eq, not_not] at this
        exact this
      have hb : b ∈ L ∧ b ≠ a := by
        by_cases ha : a ∈ L
        · obtain ⟨x, hx⟩ := List.exists_mem_of_ne_nil _ fun h => first ⟨ha, h⟩
          obtain ⟨hxL, hxa⟩ := List.mem_filter.mp hx
          have hxa : x ≠ a := of_decide_eq_true hxa
          rcases cover x hxL with rfl | rfl
          · exact absurd rfl hxa
          · exact ⟨hxL, hxa⟩
        · have hb := approved.resolve_left ha
          exact ⟨hb, fun h => ha (h ▸ hb)⟩
      exact second ⟨List.mem_filter.mpr ⟨hb.1, decide_eq_true hb.2⟩, gone⟩

theorem purgedEntry_comm (a b : Address) (t : Transaction) :
    (purgedEntry a t).bind (purgedEntry b) = (purgedEntry b t).bind (purgedEntry a) := by
  have swap : t.approved.filter (fun x => x ≠ b ∧ x ≠ a) =
      t.approved.filter fun x => x ≠ a ∧ x ≠ b :=
    List.filter_congr fun x _ => by simp only [and_comm]
  rw [purgedEntry_bind, purgedEntry_bind, swap]
  simp only [or_comm]

/-- Purging the approvals of two signers leaves, under each id, the transaction with the
approvers other than both, or nothing once one of them approved it and no one else does; so
the order of the two purges does not matter. -/
theorem purgeApprovals_purgeApprovals (st : State) (a b : Address) (id : Int) :
    ((st.purgeApprovals a).purgeApprovals b).pendingTxs.lookup id =
        ((st.purgeApprovals b).purgeApprovals a).pendingTxs.lookup id ∧
      ((st.purgeApprovals a).purgeApprovals b).pendingTxs.lookup id =
        (st.pendingTxs.lookup id).bind fun t =>
          if (a ∈ t.approved ∨ b ∈ t.approved) ∧ t.approved.filter (fun x => x ≠ a ∧ x ≠ b) = []
          then none else some ⟨t.approved.filter fun x => x ≠ a ∧ x ≠ b⟩ := by
  simp only [purgeApprovals_lookup, Option.bind_assoc]
  exact ⟨congrArg _ (funext (purgedEntry_comm a b)), congrArg _ (funext (purgedEntry_bind a b))⟩

end BuiltinActors.Multisig
