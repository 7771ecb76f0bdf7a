import BuiltinActors.Power.Frame

namespace BuiltinActors.Power

/-- A claim meets the consensus minimum of its proof type: the negation of the `below` tests
of `add_to_claim`. A proof type the policy has no minimum for meets none. -/
def meetsMin (policy : Policy) (c : Claim) : Bool :=
  match policy.consensusMinerMinPower c.windowPoStProofType with
  | .ok p => decide (p ≤ c.rawBytePower)
  | .error _ => false

/-- `f` of a claim that meets the consensus minimum, and 0 of one that does not. -/
def share (policy : Policy) (f : Claim → Int) (c : Claim) : Int :=
  if meetsMin policy c then f c else 0

theorem share_nonneg (policy : Policy) {f : Claim → Int} {c : Claim} (nonneg : 0 ≤ f c) :
    0 ≤ share policy f c := by
  unfold share
  split
  exacts [nonneg, Int.le_refl 0]

theorem share_le (policy : Policy) {f : Claim → Int} {c : Claim} (nonneg : 0 ≤ f c) :
    share policy f c ≤ f c := by
  unfold share
  split
  exacts [Int.le_refl _, nonneg]

/-- The sum of `f` over the claims map. -/
def claimsSum (f : Claim → Int) (claims : AList (fun _ : Address => Claim)) : Int :=
  claims.entries.foldr (fun e total => f e.2 + total) 0

section ClaimsSum

variable (f : Claim → Int) (claims : AList (fun _ : Address => Claim)) (a : Address)

/-- Erasing a key takes its claim, if any, out of the sum. -/
theorem claimsSum_erase :
    claimsSum f (claims.erase a) + ((claims.lookup a).map f).getD 0 = claimsSum f claims := by
  show (claims.entries.kerase a).foldr _ 0 + ((claims.entries.dlookup a).map f).getD 0 =
    claims.entries.foldr _ 0
  generalize claims.entries = l
  induction l with
  | nil => rfl
  | cons e l ih =>
    obtain ⟨k, c⟩ := e
    by_cases h : a = k
    · subst h
      simp only [List.kerase_cons_eq, List.dlookup_cons_eq, List.foldr_cons, Option.map_some',
        Option.getD_some]
      omega
    · have ne : a ≠ (⟨k, c⟩ : Σ _ : Address, Claim).1 := h
      simp only [List.kerase_cons_ne ne, List.dlookup_cons_ne _ _ ne, List.foldr_cons]
      omega

/-- Writing a claim adds it to the sum and takes out the claim it replaces. -/
theorem claimsSum_insert (c : Claim) :
    claimsSum f (claims.insert a c) + ((claims.lookup a).map f).getD 0 =
      claimsSum f claims + f c := by
  have erased := claimsSum_erase f claims a
  have entries : (claims.insert a c).entries = ⟨a, c⟩ :: (claims.erase a).entries :=
    AList.insert_entries
  unfold claimsSum at erased ⊢
  simp only [entries, List.foldr_cons]
  omega

theorem claimsSum_le {g : Claim → Int} (le : ∀ e ∈ claims.entries, f e.2 ≤ g e.2) :
    claimsSum f claims ≤ claimsSum g claims := by
  show claims.entries.foldr _ 0 ≤ claims.entries.foldr _ 0
  generalize claims.entries = l at le
  revert le
  induction l with
  | nil => exact fun _ => Int.le_refl 0
  | cons e l ih =>
    intro le
    have head := le e (List.mem_cons_self e l)
    have tail := ih fun e' he' => le e' (List.mem_cons_of_mem e he')
    simp only [List.foldr_cons]
    omega

theorem claimsSum_nonneg (nonneg : ∀ e ∈ claims.entries, 0 ≤ f e.2) :
    0 ≤ claimsSum f claims :=
  have zero : claimsSum (fun _ => 0) claims = 0 := by
    show claims.entries.foldr _ 0 = 0
    generalize claims.entries = l
    induction l with
    | nil => rfl
    | cons e l ih => rw [List.foldr_cons, ih]; rfl
  zero ▸ claimsSum_le (fun _ => 0) claims nonneg

theorem claimsSum_insert_of_lookup {old : Claim} (hl : claims.lookup a = some old) (new : Claim) :
    claimsSum f (claims.insert a new) + f old = claimsSum f claims + f new := by
  simpa only [hl, Option.map_some', Option.getD_some] using claimsSum_insert f claims a new

theorem claimsSum_insert_of_lookup_none (hl : claims.lookup a = none) (new : Claim) :
    claimsSum f (claims.insert a new) = claimsSum f claims + f new := by
  simpa only [hl, Option.map_none', Option.getD_none, Int.add_zero] using
    claimsSum_insert f claims a new

theorem le_claimsSum (nonneg : ∀ e ∈ claims.entries, 0 ≤ f e.2) {c : Claim}
    (hl : claims.lookup a = some c) : f c ≤ claimsSum f claims := by
  have erased := claimsSum_erase f claims a
  have rest := claimsSum_nonneg f (claims.erase a) fun e he =>
    nonneg e ((List.kerase_sublist a claims.entries).subset he)
  simp only [hl, Option.map_some', Option.getD_some] at erased
  omega

/-- A sum of ones over the claims that pass a test counts them. -/
theorem claimsSum_ite_one (p : Claim → Bool) :
    claimsSum (fun c => if p c then 1 else 0) claims =
      ((claims.entries.filter fun e => p e.2).length : Int) := by
  show claims.entries.foldr _ 0 = _
  generalize claims.entries = l
  induction l with
  | nil => rfl
  | cons e l ih =>
    rw [List.foldr_cons, ih, List.filter_cons]
    cases hp : p e.2 <;> simp only [hp, Bool.false_eq_true, ↓reduceIte, List.length_cons] <;>
      omega

theorem claimsSum_share_one (policy : Policy) :
    claimsSum (share policy fun _ => 1) claims =
      ((claims.entries.filter fun e => meetsMin policy e.2).length : Int) :=
  claimsSum_ite_one claims (meetsMin policy)

theorem claimsSum_one : claimsSum (fun _ => 1) claims = (claims.entries.length : Int) := by
  simpa only [ite_true, List.filter_true] using claimsSum_ite_one claims fun _ => true

end ClaimsSum

/-- A committed `add_to_claim` found the claim and a minimum for its proof type, left the new
claim non-negative, and moved each ledger total by the new claim's part minus the old one's. -/
theorem addToClaim_ok {policy : Policy} {miner : Address} {power qaPower : Int}
    {st st' : State} {u : Unit} (h : addToClaim policy miner power qaPower st = .ok u st') :
    ∃ old, st.claims.lookup miner = some old ∧
      (∃ p, policy.consensusMinerMinPower old.windowPoStProofType = .ok p) ∧
      let new : Claim := { old with rawBytePower := old.rawBytePower + power,
                                    qualityAdjPower := old.qualityAdjPower + qaPower }
      0 ≤ new.rawBytePower ∧ 0 ≤ new.qualityAdjPower ∧
      st'.claims = st.claims.insert miner new ∧
      st'.minerCount = st.minerCount ∧
      st'.totalBytesCommitted = st.totalBytesCommitted + power ∧
      st'.totalQABytesCommitted = st.totalQABytesCommitted + qaPower ∧
      st'.totalRawBytePower + share policy Claim.rawBytePower old =
        st.totalRawBytePower + share policy Claim.rawBytePower new ∧
      st'.totalQualityAdjPower + share policy Claim.qualityAdjPower old =
        st.totalQualityAdjPower + share policy Claim.qualityAdjPower new ∧
      st'.minerAboveMinPowerCount + share policy (fun _ => 1) old =
        st.minerAboveMinPowerCount + share policy (fun _ => 1) new := by
  unfold addToClaim setClaim consensusMinerMinPower at h
  cases hl : st.claims.lookup miner with
  | none =>
    simp only [bind_apply, get_apply, throw_apply, hl] at h
    cases h
  | some old =>
    cases hp : policy.consensusMinerMinPower old.windowPoStProofType with
    | error e =>
      simp only [bind_apply, get_apply, modify_apply, throw_apply, hl, hp] at h
      cases h
    | ok p =>
      simp only [bind_apply, get_apply, modify_apply, hl, hp] at h
      refine ⟨old, rfl, ⟨p, hp⟩, ?_⟩
      simp only [share, meetsMin, hp]
      by_cases below₁ : old.rawBytePower < p <;>
        by_cases below₂ : old.rawBytePower + power < p <;>
        simp only [below₁, below₂, decide_True, decide_False, Bool.not_true, Bool.not_false,
          Bool.and_true, Bool.and_false, Bool.true_and, Bool.false_and, ↓reduceIte, bind_apply,
          modify_apply, pure_apply] at h
      all_goals
        obtain ⟨raw, h⟩ := ok_of_ite_throw h
        obtain ⟨qa, h⟩ := ok_of_ite_throw h
        simp only [bind_apply, get_apply] at h
        obtain ⟨-, h⟩ := ok_of_ite_throw h
        simp only [raw, qa, ↓reduceIte, modify_apply] at h
        cases h
        simp only [decide_eq_true_eq, ← not_lt, below₁, below₂, not_true_eq_false,
          not_false_eq_true, ↓reduceIte, true_and, and_true]
        omega

/-- `add_to_claim` commits when the claim exists, its proof type has a minimum, and neither
the new claim nor the new above-minimum count is negative. -/
theorem addToClaim_ok_of {policy : Policy} {miner : Address} {power qaPower : Int} {st : State}
    {old : Claim} {p : Int} (hl : st.claims.lookup miner = some old)
    (hp : policy.consensusMinerMinPower old.windowPoStProofType = .ok p)
    (raw : 0 ≤ old.rawBytePower + power) (qa : 0 ≤ old.qualityAdjPower + qaPower)
    (count : 0 ≤ st.minerAboveMinPowerCount +
      share policy (fun _ => 1)
        { old with rawBytePower := old.rawBytePower + power,
                   qualityAdjPower := old.qualityAdjPower + qaPower } -
      share policy (fun _ => 1) old) :
    ∃ st', addToClaim policy miner power qaPower st = .ok () st' := by
  unfold addToClaim setClaim consensusMinerMinPower
  simp only [share, meetsMin, hp] at count
  simp only [bind_apply, get_apply, modify_apply, hl, hp]
  by_cases below₁ : old.rawBytePower < p <;>
    by_cases below₂ : old.rawBytePower + power < p <;>
    simp only [decide_eq_true_eq, ← not_lt, below₁, below₂, not_true_eq_false,
      not_false_eq_true, ↓reduceIte] at count <;>
    simp (disch := omega) only [below₁, below₂, decide_True, decide_False, Bool.not_true,
      Bool.not_false, Bool.and_true, Bool.and_false, Bool.true_and, Bool.false_and,
      Bool.false_eq_true, ↓reduceIte,
      bind_apply, modify_apply, pure_apply, get_apply, if_neg] <;>
    exact ⟨_, rfl⟩

/-- A committed `create_miner` got an address from the init actor and a minimum for the proof
type, and wrote a zero claim at that address, counted once more as a miner and, when the
zero claim already meets the minimum, once more above it. -/
theorem createMiner_ok {policy : Policy} {params : CreateMinerParams}
    {exec : Except ActorError ExecReturn} {st st' : State} {r : ExecReturn}
    (h : createMiner policy params exec st = .ok r st') :
    exec = .ok r ∧ (∃ p, policy.consensusMinerMinPower params.windowPoStProofType = .ok p) ∧
      st' = { st with
        claims := st.claims.insert r.idAddress ⟨params.windowPoStProofType, 0, 0⟩,
        minerCount := st.minerCount + 1,
        minerAboveMinPowerCount := st.minerAboveMinPowerCount +
          share policy (fun _ => 1) ⟨params.windowPoStProofType, 0, 0⟩ } := by
  cases exec with
  | error e => cases h
  | ok r' =>
    unfold createMiner transaction setClaim updateStatsForNewMiner consensusMinerMinPower at h
    cases hp : policy.consensusMinerMinPower params.windowPoStProofType with
    | error e =>
      simp only [liftSend, bind_apply, pure_apply, modify_apply, tryCatch_apply, throw_apply, hp,
        lt_self_iff_false, ↓reduceIte] at h
      cases h
    | ok p =>
      simp only [liftSend, bind_apply, pure_apply, modify_apply, tryCatch_apply, hp,
        lt_self_iff_false, ↓reduceIte] at h
      by_cases hpos : 0 < p <;> simp only [hpos, ↓reduceIte, modify_apply, pure_apply] at h <;>
        cases h <;>
        refine ⟨rfl, ⟨p, rfl⟩, ?_⟩ <;>
        simp only [share, meetsMin, hp, decide_eq_true_eq, ← not_lt, hpos, not_true_eq_false,
          not_false_eq_true, ↓reduceIte, Int.add_zero]

theorem updateClaimedPower_ok {policy : Policy} {caller : Caller}
    {params : UpdateClaimedPowerParams} {st st' : State} {u : Unit}
    (h : updateClaimedPower policy caller params st = .ok u st') :
    addToClaim policy caller.address params.rawByteDelta params.qualityAdjustedDelta st =
      .ok u st' := by
  unfold updateClaimedPower validateImmediateCallerIsMiner transaction at h
  by_cases hm : caller.isMiner <;>
    simp only [hm, Bool.false_eq_true, ↓reduceIte, bind_apply, pure_apply, throw_apply] at h
  · split at h
    · rename_i added
      exact added.trans h
    · cases h
  · cases h

/-- A committed `delete_claim` took out the miner's claim, if it had one, and left every other
entry of the claims map and the miner count as they were. -/
theorem deleteClaim_ok {policy : Policy} {miner : Address} {st st' : State} {u : Unit}
    (h : deleteClaim policy miner st = .ok u st') :
    st'.minerCount = st.minerCount ∧
      ∀ a, st'.claims.lookup a = if a = miner then none else st.claims.lookup a := by
  unfold deleteClaim at h
  rw [bind_apply, get_apply] at h
  cases hl : st.claims.lookup miner with
  | none =>
    simp only [hl, pure_apply] at h
    cases h
    refine ⟨rfl, fun a => ?_⟩
    split_ifs with ha
    · rw [ha, hl]
    · rfl
  | some c =>
    simp only [hl, bind_apply] at h
    split at h
    · rename_i st₁ added
      obtain ⟨old, -, -, -, -, claims₁, count₁, -⟩ := addToClaim_ok added
      rw [modify_apply] at h
      cases h
      refine ⟨count₁, fun a => ?_⟩
      show (st₁.claims.erase miner).lookup a = _
      split_ifs with ha
      · rw [ha, AList.lookup_erase]
      · rw [AList.lookup_erase_ne ha, claims₁, AList.lookup_insert_ne ha]
    · cases h

end BuiltinActors.Power
