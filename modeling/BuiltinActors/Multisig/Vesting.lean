import BuiltinActors.Multisig.State
import Mathlib.Tactic.Linarith
import Mathlib.Tactic.Ring
import Mathlib.Algebra.Order.Field.Basic
import Mathlib.Data.Rat.Cast.Order

namespace BuiltinActors.Multisig

theorem divCeil_spec {a b : Int} (hb : 0 < b) :
    a ≤ divCeil a b * b ∧ (divCeil a b - 1) * b < a := by
  have hq := Int.ediv_add_emod a b
  have hr := Int.emod_nonneg a hb.ne'
  have hl := Int.emod_lt_of_pos a hb
  unfold divCeil
  rw [Int.fmod_eq_emod a hb.le, Int.fdiv_eq_ediv a hb.le]
  split_ifs with h
  · constructor <;> linarith
  · have hp : 0 < a % b := lt_of_le_of_ne hr (Ne.symm h)
    constructor <;> linarith

example : divCeil 7 2 = 4 ∧ divCeil (-7) 2 = -3 := by decide

section AmountLocked

variable {st : State} {e e' : Int}

theorem amountLocked_of_unlocked (h : st.unlockDuration ≤ e) : st.amountLocked e = 0 := by
  simp [State.amountLocked, h]

theorem amountLocked_of_nonpos (h : e ≤ 0) (hD : e < st.unlockDuration) :
    st.amountLocked e = st.initialBalance := by
  simp [State.amountLocked, h, not_le.mpr hD]

theorem amountLocked_mid (h0 : 0 < e) (hD : e < st.unlockDuration) :
    st.amountLocked e =
      divCeil (st.initialBalance * (st.unlockDuration - e)) st.unlockDuration := by
  simp [State.amountLocked, not_le.mpr hD, not_le.mpr h0]

/-- Inside the unlock window the locked amount is the ceiling of the remaining share. -/
theorem amountLocked_mid_bounds (h0 : 0 < e) (hD : e < st.unlockDuration) :
    st.initialBalance * (st.unlockDuration - e) ≤ st.amountLocked e * st.unlockDuration ∧
      (st.amountLocked e - 1) * st.unlockDuration <
        st.initialBalance * (st.unlockDuration - e) := by
  rw [amountLocked_mid h0 hD]
  exact divCeil_spec (by omega)

theorem amountLocked_nonneg (hB : 0 ≤ st.initialBalance) (e : Int) :
    0 ≤ st.amountLocked e := by
  rcases le_or_lt st.unlockDuration e with hD | hD
  · rw [amountLocked_of_unlocked hD]
  rcases le_or_lt e 0 with h0 | h0
  · rwa [amountLocked_of_nonpos h0 hD]
  have hm := amountLocked_mid_bounds h0 hD
  refine le_of_mul_le_mul_right ?_ (by omega : 0 < st.unlockDuration)
  rw [zero_mul]
  exact (mul_nonneg hB (by omega)).trans hm.1

theorem amountLocked_le_initialBalance (hB : 0 ≤ st.initialBalance) (e : Int) :
    st.amountLocked e ≤ st.initialBalance := by
  rcases le_or_lt st.unlockDuration e with hD | hD
  · rwa [amountLocked_of_unlocked hD]
  rcases le_or_lt e 0 with h0 | h0
  · rw [amountLocked_of_nonpos h0 hD]
  have hm := amountLocked_mid_bounds h0 hD
  have := lt_of_mul_lt_mul_right
    (hm.2.trans_le (mul_le_mul_of_nonneg_left (by omega : st.unlockDuration - e ≤ _) hB))
    (by omega : 0 ≤ st.unlockDuration)
  omega

/-- A negative initial balance locks nothing: the locked amount is never positive. -/
theorem amountLocked_nonpos (hB : st.initialBalance < 0) (e : Int) :
    st.amountLocked e ≤ 0 := by
  rcases le_or_lt st.unlockDuration e with hD | hD
  · rw [amountLocked_of_unlocked hD]
  rcases le_or_lt e 0 with h0 | h0
  · rw [amountLocked_of_nonpos h0 hD]; exact hB.le
  have hm := amountLocked_mid_bounds h0 hD
  have hneg := mul_neg_of_neg_of_pos hB (by omega : 0 < st.unlockDuration - e)
  have hlt : (st.amountLocked e - 1) * st.unlockDuration < 0 * st.unlockDuration := by
    rw [zero_mul]; exact hm.2.trans hneg
  have := lt_of_mul_lt_mul_right hlt (by omega : 0 ≤ st.unlockDuration)
  omega

theorem amountLocked_antitone (hB : 0 ≤ st.initialBalance) (h : e ≤ e') :
    st.amountLocked e' ≤ st.amountLocked e := by
  rcases le_or_lt st.unlockDuration e' with hD' | hD'
  · rw [amountLocked_of_unlocked hD']; exact amountLocked_nonneg hB e
  rcases le_or_lt e 0 with h0 | h0
  · rw [amountLocked_of_nonpos h0 (by omega)]; exact amountLocked_le_initialBalance hB e'
  have hm := amountLocked_mid_bounds h0 (by omega : e < st.unlockDuration)
  have hm' := amountLocked_mid_bounds (by omega : 0 < e') hD'
  have key : (st.amountLocked e' - 1) * st.unlockDuration <
      st.amountLocked e * st.unlockDuration :=
    calc (st.amountLocked e' - 1) * st.unlockDuration
        < st.initialBalance * (st.unlockDuration - e') := hm'.2
      _ ≤ st.initialBalance * (st.unlockDuration - e) :=
        mul_le_mul_of_nonneg_left (by omega) hB
      _ ≤ st.amountLocked e * st.unlockDuration := hm.1
  have := lt_of_mul_lt_mul_right key (by omega : 0 ≤ st.unlockDuration)
  omega

/-- Over any span of time the lock either shrinks or stays non-positive. -/
theorem amountLocked_le_max (h : e ≤ e') :
    st.amountLocked e' ≤ max (st.amountLocked e) 0 := by
  rcases le_or_lt 0 st.initialBalance with hB | hB
  · exact le_max_of_le_left (amountLocked_antitone hB h)
  · exact le_max_of_le_right (amountLocked_nonpos hB e')

/-- Inside the window the released part is the floor of the linear share. -/
theorem released_eq_floor (h0 : 0 < e) (hD : e < st.unlockDuration) :
    st.initialBalance - st.amountLocked e = st.initialBalance * e / st.unlockDuration := by
  have hm := amountLocked_mid_bounds h0 hD
  exact ((@Int.ediv_emod_unique _ _ (st.initialBalance * e -
    st.unlockDuration * (st.initialBalance - st.amountLocked e)) _
    (by omega : 0 < st.unlockDuration)).mpr
      ⟨by ring, by linarith [hm.1], by linarith [hm.2]⟩).1.symm

end AmountLocked

theorem amountLocked_vesting_schedule (st : State) (hB : 0 ≤ st.initialBalance)
    (hD : 0 < st.unlockDuration) :
    (∀ e e', e ≤ e' → 0 ≤ st.amountLocked e' ∧ st.amountLocked e' ≤ st.amountLocked e ∧
      st.amountLocked e ≤ st.initialBalance) ∧
    (∀ e, e ≤ 0 → st.amountLocked e = st.initialBalance) ∧
    (∀ e, st.unlockDuration ≤ e → st.amountLocked e = 0) ∧
    (0 < st.initialBalance → ∀ e, e < st.unlockDuration → 0 < st.amountLocked e) ∧
    (∀ e, 0 < e → e < st.unlockDuration →
      st.initialBalance - st.amountLocked e = st.initialBalance * e / st.unlockDuration ∧
      ((st.initialBalance - st.amountLocked e : ℤ) : ℚ) ≤
        (st.initialBalance * e : ℚ) / st.unlockDuration ∧
      (st.initialBalance * e : ℚ) / st.unlockDuration <
        ((st.initialBalance - st.amountLocked e : ℤ) : ℚ) + 1) := by
  refine ⟨fun e e' h => ⟨amountLocked_nonneg hB e', amountLocked_antitone hB h,
      amountLocked_le_initialBalance hB e⟩,
    fun e h => amountLocked_of_nonpos h (by omega), fun e h => amountLocked_of_unlocked h,
    fun hpos e hlt => ?_, fun e h0 hlt => ⟨released_eq_floor h0 hlt, ?_⟩⟩
  · rcases le_or_lt e 0 with h0 | h0
    · rwa [amountLocked_of_nonpos h0 hlt]
    have hm := amountLocked_mid_bounds h0 hlt
    refine lt_of_mul_lt_mul_right ?_ hD.le
    rw [zero_mul]
    exact (mul_pos hpos (by omega)).trans_le hm.1
  · have hm := amountLocked_mid_bounds h0 hlt
    have hq : (0 : ℚ) < st.unlockDuration := by exact_mod_cast hD
    rw [le_div_iff₀ hq, div_lt_iff₀ hq]
    constructor
    · exact_mod_cast (by linarith [hm.1] : (st.initialBalance - st.amountLocked e) *
        st.unlockDuration ≤ st.initialBalance * e)
    · exact_mod_cast (by linarith [hm.2] : st.initialBalance * e <
        (st.initialBalance - st.amountLocked e + 1) * st.unlockDuration)

/-- Seven epochs of unlock over a balance of 100: after three, 42 is released. -/
theorem amountLocked_vesting_schedule_seven :
    (0 : Int) ≤ 100 ∧ (0 : Int) < 7 ∧ (100 : Int) - (⟨[], 100, 0, 7, ∅⟩ : State).amountLocked 3 = 42 :=
  ⟨by decide, by decide,
    ((amountLocked_vesting_schedule ⟨[], 100, 0, 7, ∅⟩ (by decide) (by decide)).2.2.2.2 3
      (by decide) (by decide)).1⟩

theorem checkAvailable_eq_ok_iff {st : State} {balance amount t : Int} :
    st.checkAvailable balance amount t = .ok () ↔
      0 ≤ amount ∧ amount ≤ balance ∧
        (amount = 0 ∨ st.amountLocked (t - st.startEpoch) ≤ balance - amount) := by
  unfold State.checkAvailable
  split_ifs <;> simp <;> omega

theorem checkAvailable_permission_widens (st : State) (balance amount t : Int)
    (h : st.checkAvailable balance amount t = .ok ()) :
    (∀ t', t ≤ t' → st.checkAvailable balance amount t' = .ok ()) ∧
    (∀ balance', balance ≤ balance' → st.checkAvailable balance' amount t = .ok ()) ∧
    (∀ amount', 0 ≤ amount' → amount' ≤ amount →
      st.checkAvailable balance amount' t = .ok ()) := by
  obtain ⟨h0, hb, hl⟩ := checkAvailable_eq_ok_iff.mp h
  refine ⟨fun t' ht => checkAvailable_eq_ok_iff.mpr ⟨h0, hb, hl.imp_right fun hl => ?_⟩,
    fun b' hb' => checkAvailable_eq_ok_iff.mpr ⟨h0, by omega, hl.imp_right fun hl => by omega⟩,
    fun a' ha0 ha => checkAvailable_eq_ok_iff.mpr ⟨ha0, by omega, ?_⟩⟩
  · exact (amountLocked_le_max (by omega : t - st.startEpoch ≤ t' - st.startEpoch)).trans
      (max_le hl (by omega))
  · rcases eq_or_lt_of_le ha0 with rfl | hpos
    · exact .inl rfl
    · exact .inr (by rcases hl with rfl | hl <;> omega)

/-- Spending 20 of 100 at epoch 5 of a ten-epoch unlock is allowed, and stays allowed. -/
theorem checkAvailable_permission_widens_later :
    State.checkAvailable ⟨[], 100, 0, 10, ∅⟩ 100 20 5 = .ok () ∧
      State.checkAvailable ⟨[], 100, 0, 10, ∅⟩ 100 20 6 = .ok () :=
  ⟨by decide, (checkAvailable_permission_widens _ 100 20 5 (by decide)).1 6 (by decide)⟩

end BuiltinActors.Multisig
