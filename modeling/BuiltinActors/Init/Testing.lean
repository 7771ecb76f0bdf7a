import BuiltinActors.Address
import Mathlib.Data.List.Pairwise
import Mathlib.Data.List.Nodup

namespace BuiltinActors.Init

/-- A loaded address map as its `for_each` sees it: the entries visited, in visiting order,
and the error the iteration stops with when a block is missing. Keys are distinct. -/
structure AddressMap where
  entries : List (Address × Nat)
  iterError : Option String
  nodup : (entries.map Prod.fst).Nodup

/-- Init actor state; `addressMap` is the root of the address map in the store. -/
structure State where
  addressMap : Nat
  nextId : Nat
  networkName : String

/-- The block store, as far as the address map goes: what loads from each root. -/
abbrev Store := Nat → Except String AddressMap

structure StateSummary where
  idsByAddress : AList (fun _ : Address => Nat)
  nextId : Nat

/-- `MessageAccumulator::require`. -/
def require (acc : List String) (predicate : Prop) [Decidable predicate] (msg : String) :
    List String :=
  if predicate then acc else acc ++ [msg]

/-- What the `for_each` closure keeps between entries. -/
structure Scan where
  acc : List String
  stableAddressById : AList (fun _ : Nat => Address)
  delegatedAddressById : AList (fun _ : Nat => Address)
  idsByAddress : AList (fun _ : Address => Nat)

/-- `HashMap::insert` on a per-class map, reporting the key it replaces as a duplicate. -/
def insertReportingDuplicate (acc : List String) (byId : AList (fun _ : Nat => Address))
    (key : Address) (actorId : Nat) : List String × AList (fun _ : Nat => Address) :=
  match byId.lookup actorId with
  | some duplicate => (acc ++ [s!"duplicate mapping to ID {actorId}: {key} {duplicate}"],
      byId.insert actorId key)
  | none => (acc, byId.insert actorId key)

/-- The `for_each` closure of `check_state_invariants`, on one entry. -/
def visitEntry (firstNonSingletonAddr : Nat) (s : Scan) (key : Address) (actorId : Nat) :
    Scan :=
  let acc := require s.acc (key.protocol ≠ .id) s!"key {key} is an ID address"
  let acc := require acc (actorId ≥ firstNonSingletonAddr)
    s!"unexpected singleton ID value {actorId}"
  let s := { s with idsByAddress := s.idsByAddress.insert key actorId }
  match key.protocol with
  | .id => { s with acc := acc ++ [s!"key {key} is an ID address"] }
  | .delegated =>
    let (acc, byId) := insertReportingDuplicate acc s.delegatedAddressById key actorId
    { s with acc := acc, delegatedAddressById := byId }
  | _ =>
    let (acc, byId) := insertReportingDuplicate acc s.stableAddressById key actorId
    { s with acc := acc, stableAddressById := byId }

/-- `check_state_invariants` of the init actor, with `FIRST_NON_SINGLETON_ADDR` as a
parameter. -/
def checkStateInvariants (firstNonSingletonAddr : Nat) (state : State) (store : Store) :
    StateSummary × List String :=
  let acc := require [] (state.networkName ≠ "") "network name is empty"
  let nextId := state.nextId
  let acc := require acc (nextId ≥ firstNonSingletonAddr) s!"next id {nextId} is too low"
  match store state.addressMap with
  | .ok addressMap =>
    let s := addressMap.entries.foldl (fun s e => visitEntry firstNonSingletonAddr s e.1 e.2)
      ⟨acc, ∅, ∅, ∅⟩
    let acc := match addressMap.iterError with
      | none => s.acc
      | some e => s.acc ++ [s!"error iterating address map: {e}"]
    (⟨s.idsByAddress, nextId⟩, acc)
  | .error e => (⟨∅, nextId⟩, acc ++ [s!"error loading address map: {e}"])

section Checks

variable (first : Nat)

/-- Two entries the per-class maps must not both hold: same ID, neither key an ID address,
and both delegated or both not. -/
def Clash (a b : Address × Nat) : Prop :=
  a.2 = b.2 ∧ a.1.protocol ≠ .id ∧ b.1.protocol ≠ .id ∧
    (a.1.protocol = .delegated ↔ b.1.protocol = .delegated)

/-- A per-class map holds exactly the IDs of the visited entries whose key is in the class. -/
def TracksClass (c : Address → Prop) (P : List (Address × Nat))
    (m : AList (fun _ : Nat => Address)) : Prop :=
  ∀ j, (m.lookup j).isSome ↔ ∃ k, (k, j) ∈ P ∧ c k

/-- Both per-class maps of the scan track the entries visited so far. -/
def Tracks (P : List (Address × Nat)) (s : Scan) : Prop :=
  TracksClass (·.protocol = .delegated) P s.delegatedAddressById ∧
  TracksClass (fun k => k.protocol ≠ .id ∧ k.protocol ≠ .delegated) P s.stableAddressById

theorem insertReportingDuplicate_fst (acc : List String) (byId : AList (fun _ : Nat => Address))
    (key : Address) (actorId : Nat) :
    (insertReportingDuplicate acc byId key actorId).1 = [] ↔ acc = [] ∧ byId.lookup actorId = none := by
  unfold insertReportingDuplicate
  cases byId.lookup actorId <;> simp

theorem insertReportingDuplicate_snd (acc : List String) (byId : AList (fun _ : Nat => Address))
    (key : Address) (actorId : Nat) :
    (insertReportingDuplicate acc byId key actorId).2 = byId.insert actorId key := by
  unfold insertReportingDuplicate
  cases byId.lookup actorId <;> rfl

theorem require_eq_nil (acc : List String) (p : Prop) [Decidable p] (msg : String) :
    require acc p msg = [] ↔ acc = [] ∧ p := by
  unfold require; split_ifs <;> simp [*]

theorem visitEntry_acc_eq_nil (s : Scan) (key : Address) (actorId : Nat) :
    (visitEntry first s key actorId).acc = [] ↔
      s.acc = [] ∧ key.protocol ≠ .id ∧ first ≤ actorId ∧
        (key.protocol = .delegated → s.delegatedAddressById.lookup actorId = none) ∧
        (key.protocol ≠ .delegated → s.stableAddressById.lookup actorId = none) := by
  unfold visitEntry
  cases hp : key.protocol <;>
    simp [hp, require_eq_nil, insertReportingDuplicate_fst] <;> tauto

theorem visitEntry_delegatedAddressById (s : Scan) (key : Address) (actorId : Nat) :
    (visitEntry first s key actorId).delegatedAddressById =
      if key.protocol = .delegated then s.delegatedAddressById.insert actorId key
      else s.delegatedAddressById := by
  unfold visitEntry; cases hp : key.protocol <;> simp [hp, insertReportingDuplicate_snd]

theorem visitEntry_stableAddressById (s : Scan) (key : Address) (actorId : Nat) :
    (visitEntry first s key actorId).stableAddressById =
      if key.protocol ≠ .id ∧ key.protocol ≠ .delegated then
        s.stableAddressById.insert actorId key
      else s.stableAddressById := by
  unfold visitEntry; cases hp : key.protocol <;> simp [hp, insertReportingDuplicate_snd]

theorem visitEntry_idsByAddress (s : Scan) (key : Address) (actorId : Nat) :
    (visitEntry first s key actorId).idsByAddress = s.idsByAddress.insert key actorId := by
  unfold visitEntry; cases key.protocol <;> rfl

theorem TracksClass.step {c : Address → Prop} [DecidablePred c] {P : List (Address × Nat)}
    {m : AList (fun _ : Nat => Address)} (h : TracksClass c P m) (key : Address) (actorId : Nat) :
    TracksClass c (P ++ [(key, actorId)]) (if c key then m.insert actorId key else m) := by
  intro j
  simp only [List.mem_append, List.mem_singleton, Prod.mk.injEq]
  split_ifs with hc
  · by_cases hj : j = actorId
    · subst hj; simp only [AList.lookup_insert, Option.isSome_some, true_iff]
      exact ⟨key, by simp, hc⟩
    · rw [AList.lookup_insert_ne hj, h j]
      simp [hj]
  · rw [h j]
    constructor
    · rintro ⟨k, hk, hck⟩; exact ⟨k, .inl hk, hck⟩
    · rintro ⟨k, hk | ⟨rfl, rfl⟩, hck⟩
      · exact ⟨k, hk, hck⟩
      · exact absurd hck hc

theorem Tracks.visitEntry {P : List (Address × Nat)} {s : Scan} (h : Tracks P s)
    (key : Address) (actorId : Nat) :
    Tracks (P ++ [(key, actorId)]) (visitEntry first s key actorId) := by
  rw [Tracks, visitEntry_delegatedAddressById, visitEntry_stableAddressById]
  exact ⟨h.1.step key actorId, h.2.step key actorId⟩

theorem visitEntry_acc_eq_nil_of_tracks {P : List (Address × Nat)} {s : Scan} (h : Tracks P s)
    (key : Address) (actorId : Nat) :
    (visitEntry first s key actorId).acc = [] ↔
      s.acc = [] ∧ key.protocol ≠ .id ∧ first ≤ actorId ∧ ∀ a ∈ P, ¬Clash a (key, actorId) := by
  have hd : s.delegatedAddressById.lookup actorId = none ↔
      ∀ k, (k, actorId) ∈ P → k.protocol ≠ .delegated := by
    rw [← Option.not_isSome_iff_eq_none, h.1 actorId]; simp
  have hs : s.stableAddressById.lookup actorId = none ↔
      ∀ k, (k, actorId) ∈ P → k.protocol ≠ .id → k.protocol = .delegated := by
    rw [← Option.not_isSome_iff_eq_none, h.2 actorId]; simp
  rw [visitEntry_acc_eq_nil, hd, hs]
  constructor
  · rintro ⟨ha, hid, hf, hdel, hst⟩
    refine ⟨ha, hid, hf, ?_⟩
    rintro ⟨k, i⟩ hm ⟨rfl, hk, -, hiff⟩
    by_cases hkd : key.protocol = .delegated
    · exact hdel hkd k hm (hiff.mpr hkd)
    · exact hkd (hiff.mp (hst hkd k hm hk))
  · rintro ⟨ha, hid, hf, hno⟩
    refine ⟨ha, hid, hf, fun hkd k hm hk => hno (k, actorId) hm
      ⟨rfl, by rw [hk]; decide, hid, iff_of_true hk hkd⟩, fun hkd k hm hk => ?_⟩
    by_contra hk'
    exact hno (k, actorId) hm ⟨rfl, hk, hid, iff_of_false hk' hkd⟩

theorem foldl_visitEntry_acc (l : List (Address × Nat)) :
    ∀ (P : List (Address × Nat)) (s : Scan), Tracks P s →
      ((l.foldl (fun s e => visitEntry first s e.1 e.2) s).acc = [] ↔
        s.acc = [] ∧ (∀ e ∈ l, e.1.protocol ≠ .id ∧ first ≤ e.2) ∧
          (∀ a ∈ P, ∀ b ∈ l, ¬Clash a b) ∧ l.Pairwise (fun a b => ¬Clash a b)) := by
  induction l with
  | nil => intro P s _; simp
  | cons e l ih =>
    obtain ⟨k, i⟩ := e
    intro P s h
    rw [List.foldl_cons, ih _ _ (h.visitEntry first k i), visitEntry_acc_eq_nil_of_tracks first h]
    simp only [List.forall_mem_cons, List.mem_append, List.mem_singleton, List.pairwise_cons,
      or_imp, forall_and, forall_eq]
    tauto

theorem foldl_visitEntry_ids (l : List (Address × Nat)) (hl : (l.map Prod.fst).Nodup) :
    ∀ (s : Scan) (k : Address) (i : Nat),
      (l.foldl (fun s e => visitEntry first s e.1 e.2) s).idsByAddress.lookup k = some i ↔
        (k, i) ∈ l ∨ k ∉ l.map Prod.fst ∧ s.idsByAddress.lookup k = some i := by
  induction l with
  | nil => simp
  | cons e l ih =>
    obtain ⟨k', i'⟩ := e
    rw [List.map_cons, List.nodup_cons] at hl
    intro s k i
    rw [List.foldl_cons, ih hl.2, visitEntry_idsByAddress]
    by_cases hk : k = k'
    · subst hk
      have hkl : ∀ j, (k, j) ∉ l := fun j hj => hl.1 (List.mem_map.mpr ⟨_, hj, rfl⟩)
      simp [AList.lookup_insert, hkl, hl.1, eq_comm]
    · simp [AList.lookup_insert_ne hk, hk]

theorem tracks_empty (acc : List String) : Tracks [] ⟨acc, ∅, ∅, ∅⟩ :=
  ⟨fun j => by simp [AList.lookup_empty], fun j => by simp [AList.lookup_empty]⟩

/-- Over a map's entries, no pair clashes exactly when no two distinct keys of one class
(delegated, or not) share an ID. -/
theorem pairwise_not_clash_iff {l : List (Address × Nat)} (hl : (l.map Prod.fst).Nodup)
    (hid : ∀ e ∈ l, e.1.protocol ≠ .id) :
    l.Pairwise (fun a b => ¬Clash a b) ↔
      (∀ k₁ k₂ i, (k₁, i) ∈ l → (k₂, i) ∈ l →
        k₁.protocol = .delegated → k₂.protocol = .delegated → k₁ = k₂) ∧
      (∀ k₁ k₂ i, (k₁, i) ∈ l → (k₂, i) ∈ l →
        k₁.protocol ≠ .delegated → k₂.protocol ≠ .delegated → k₁ = k₂) := by
  have hsymm : Symmetric (fun a b : Address × Nat => ¬Clash a b) := fun a b h hc =>
    h ⟨hc.1.symm, hc.2.2.1, hc.2.1, hc.2.2.2.symm⟩
  constructor
  · intro hp
    have key : ∀ k₁ k₂ i, (k₁, i) ∈ l → (k₂, i) ∈ l →
        (k₁.protocol = .delegated ↔ k₂.protocol = .delegated) → k₁ = k₂ := by
      intro k₁ k₂ i h₁ h₂ hiff
      by_contra hne
      exact hp.forall hsymm h₁ h₂ (fun he => hne (Prod.mk.inj he).1)
        ⟨rfl, hid _ h₁, hid _ h₂, hiff⟩
    exact ⟨fun k₁ k₂ i h₁ h₂ hd₁ hd₂ => key k₁ k₂ i h₁ h₂ (iff_of_true hd₁ hd₂),
      fun k₁ k₂ i h₁ h₂ hd₁ hd₂ => key k₁ k₂ i h₁ h₂ (iff_of_false hd₁ hd₂)⟩
  · rintro ⟨hdel, hst⟩
    refine (List.Nodup.of_map Prod.fst hl).pairwise_of_forall_ne
      fun ⟨k₁, i₁⟩ h₁ ⟨k₂, i₂⟩ h₂ hne hc => hne ?_
    obtain ⟨hi, -, -, hiff⟩ := hc
    simp only at hi hiff
    subst hi
    by_cases hd : k₁.protocol = .delegated
    · rw [hdel k₁ k₂ i₁ h₁ h₂ hd (hiff.mp hd)]
    · rw [hst k₁ k₂ i₁ h₁ h₂ hd (fun h => hd (hiff.mpr h))]

end Checks

theorem checkStateInvariants_exact (first : Nat) (state : State) (store : Store) :
    ((checkStateInvariants first state store).2 = [] ↔
      state.networkName ≠ "" ∧ first ≤ state.nextId ∧
      ∃ m, store state.addressMap = .ok m ∧ m.iterError = none ∧
        (∀ k i, (k, i) ∈ m.entries → k.protocol ≠ .id ∧ first ≤ i) ∧
        (∀ k₁ k₂ i, (k₁, i) ∈ m.entries → (k₂, i) ∈ m.entries →
          k₁.protocol = .delegated → k₂.protocol = .delegated → k₁ = k₂) ∧
        (∀ k₁ k₂ i, (k₁, i) ∈ m.entries → (k₂, i) ∈ m.entries →
          k₁.protocol ≠ .delegated → k₂.protocol ≠ .delegated → k₁ = k₂)) ∧
    (checkStateInvariants first state store).1.nextId = state.nextId ∧
    ∀ m, store state.addressMap = .ok m → m.iterError = none →
      ∀ k i, (checkStateInvariants first state store).1.idsByAddress.lookup k = some i ↔
        (k, i) ∈ m.entries := by
  refine ⟨?_, by unfold checkStateInvariants; split <;> rfl, fun m hm _ k i => ?_⟩
  · unfold checkStateInvariants
    cases hm : store state.addressMap with
    | error e => simp
    | ok m =>
      cases he : m.iterError with
      | some e => simp [he]
      | none =>
        simp only [he]
        rw [foldl_visitEntry_acc first m.entries [] _ (tracks_empty _), require_eq_nil,
          require_eq_nil]
        have hiff := fun hid => pairwise_not_clash_iff m.nodup hid
        constructor
        · rintro ⟨⟨⟨-, hn⟩, hf⟩, hok, -, hp⟩
          exact ⟨hn, hf, m, rfl, he, fun k i h => hok (k, i) h,
            (hiff fun e h => (hok e h).1).mp hp⟩
        · rintro ⟨hn, hf, m', hm', -, hok, hdup⟩
          cases hm'
          exact ⟨⟨⟨rfl, hn⟩, hf⟩, fun e h => hok e.1 e.2 h, by simp,
            (hiff fun e h => (hok e.1 e.2 h).1).mpr hdup⟩
  · unfold checkStateInvariants
    simp only [hm]
    rw [foldl_visitEntry_ids first m.entries m.nodup]
    simp [AList.lookup_empty]

end BuiltinActors.Init
