import BuiltinActors.Multisig.Vesting

namespace BuiltinActors.Multisig

/-- Bounds of `ChainEpoch`, a Rust `i64`. -/
def i64Min : Int := -2 ^ 63
def i64Max : Int := 2 ^ 63 - 1

/-- `a - b` on `i64`: `none` when it overflows (actors are built with overflow checks, so the
call aborts there). -/
def subI64 (a b : Int) : Option Int :=
  if i64Min ≤ a - b ∧ a - b ≤ i64Max then some (a - b) else none

/-- `amount_locked` with its epoch arithmetic on `i64`; `none` on an overflow or a zero
`div_ceil` divisor. The token arithmetic is `BigInt` and cannot overflow. -/
def State.amountLockedI64 (st : State) (elapsedEpoch : Int) : Option Int :=
  if elapsedEpoch ≥ st.unlockDuration then some 0
  else if elapsedEpoch ≤ 0 then some st.initialBalance
  else do
    let remainingLockDuration ← subI64 st.unlockDuration elapsedEpoch
    let numerator := st.initialBalance * remainingLockDuration
    if st.unlockDuration = 0 then none else some (divCeil numerator st.unlockDuration)

/-- `check_available` evaluated with `i64` epochs; `none` where that evaluation aborts. -/
def State.checkAvailableI64 (st : State) (balance amountToSpend : Int) (currEpoch : Int) :
    Option (Except ActorError Unit) :=
  if amountToSpend < 0 then
    some (.error (.illegalArgument s!"amount to spend {amountToSpend} less than zero"))
  else if balance < amountToSpend then
    some (.error (.insufficientFunds
      s!"current balance {balance} less than amount to spend {amountToSpend}"))
  else if amountToSpend = 0 then some (.ok ())
  else do
    let remainingBalance := balance - amountToSpend
    let elapsedEpoch ← subI64 currEpoch st.startEpoch
    let amountLocked ← st.amountLockedI64 elapsedEpoch
    if remainingBalance < amountLocked then
      some (.error (.insufficientFunds
        s!"actor balance {remainingBalance} if spent {amountToSpend} would be less than required locked amount {amountLocked}"))
    else some (.ok ())

/-- With an `i64` unlock duration the lock itself never overflows, for any elapsed time. -/
theorem amountLockedI64_eq {st : State} (hd : st.unlockDuration ≤ i64Max) (e : Int) :
    st.amountLockedI64 e = some (st.amountLocked e) := by
  unfold State.amountLockedI64 State.amountLocked
  split_ifs with h₁ h₂ h₀
  · rfl
  · rfl
  · omega
  · have hsub : subI64 st.unlockDuration e = some (st.unlockDuration - e) :=
      if_pos (by unfold i64Min; omega)
    simp only [hsub, Option.bind_eq_bind, Option.some_bind, if_neg h₀]

/-- Starting at `i64::MIN`, a positive spend at epoch 0 overflows `curr_epoch - start_epoch`. -/
theorem checkAvailableI64_overflows_at_min_start :
    (⟨[], 0, i64Min, 0, ∅⟩ : State).checkAvailableI64 1 1 0 ≠
      some ((⟨[], 0, i64Min, 0, ∅⟩ : State).checkAvailable 1 1 0) := by
  decide

/-- The `i64` evaluation aborts exactly when a positive, covered spend meets an elapsed time
above `i64::MAX`; otherwise it gives the unbounded verdict. -/
theorem checkAvailableI64_eq (st : State) (hs : i64Min ≤ st.startEpoch ∧ st.startEpoch ≤ i64Max)
    (hd : i64Min ≤ st.unlockDuration ∧ st.unlockDuration ≤ i64Max)
    (balance amount curr : Int) (hc : 0 ≤ curr ∧ curr ≤ i64Max) :
    st.checkAvailableI64 balance amount curr =
      if 0 < amount ∧ amount ≤ balance ∧ i64Max < curr - st.startEpoch then none
      else some (st.checkAvailable balance amount curr) := by
  unfold State.checkAvailableI64 State.checkAvailable
  have hmin : i64Min = -(i64Max + 1) := rfl
  by_cases hov : 0 < amount ∧ amount ≤ balance ∧ i64Max < curr - st.startEpoch
  · have hsub : subI64 curr st.startEpoch = none := if_neg (by omega)
    rw [if_pos hov, if_neg (by omega), if_neg (by omega), if_neg (by omega), hsub]
    rfl
  · rw [if_neg hov]
    split_ifs with h₁ h₂ h₃
    · rfl
    · rfl
    · rfl
    · have hsub : subI64 curr st.startEpoch = some (curr - st.startEpoch) := if_pos (by omega)
      simp only [hsub, amountLockedI64_eq hd.2, Option.bind_eq_bind, Option.some_bind]
      split_ifs <;> rfl

/-- A start epoch of 0 and the largest epoch: no overflow, and the unbounded verdict. -/
theorem checkAvailableI64_eq_at_max_epoch :
    (i64Min ≤ 0 ∧ (0 : Int) ≤ i64Max) ∧ (i64Min ≤ 10 ∧ (10 : Int) ≤ i64Max) ∧
      (0 ≤ i64Max ∧ i64Max ≤ i64Max) ∧
      (⟨[], 100, 0, 10, ∅⟩ : State).checkAvailableI64 100 20 i64Max =
        some ((⟨[], 100, 0, 10, ∅⟩ : State).checkAvailable 100 20 i64Max) := by
  refine ⟨by decide, by decide, by decide, ?_⟩
  rw [checkAvailableI64_eq _ (by decide) (by decide) 100 20 i64Max (by decide)]
  decide

end BuiltinActors.Multisig
