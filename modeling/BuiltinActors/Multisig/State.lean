import BuiltinActors.Address

namespace BuiltinActors.Multisig

/-- A pending transaction; the state methods read only its list of approvers. -/
structure Transaction where
  approved : List Address
  deriving DecidableEq, Repr

/-- Multisig actor state, with the linear unlock and the pending-transaction map (keyed by
transaction id). Token amounts are in atto and epochs are integers. -/
structure State where
  signers : List Address
  initialBalance : Int
  startEpoch : Int
  unlockDuration : Int
  pendingTxs : AList (fun _ : Int => Transaction)

def State.isSigner (st : State) (address : Address) : Bool :=
  st.signers.contains address

def State.setLocked (st : State) (startEpoch unlockDuration : Int)
    (lockedAmount : Int) : State :=
  { st with startEpoch := startEpoch, unlockDuration := unlockDuration,
            initialBalance := lockedAmount }

/-- `Integer::div_ceil`: floor division, plus one when a remainder is left. -/
def divCeil (a b : Int) : Int :=
  if Int.fmod a b = 0 then Int.fdiv a b else Int.fdiv a b + 1

/-- Locked amount after `elapsedEpoch` epochs of the unlock:
`ceil(initial_balance * remaining / unlock_duration)`. -/
def State.amountLocked (st : State) (elapsedEpoch : Int) : Int :=
  if elapsedEpoch ≥ st.unlockDuration then 0
  else if elapsedEpoch ≤ 0 then st.initialBalance
  else
    let remainingLockDuration := st.unlockDuration - elapsedEpoch
    let numerator := st.initialBalance * remainingLockDuration
    let denominator := st.unlockDuration
    divCeil numerator denominator

def State.checkAvailable (st : State) (balance amountToSpend : Int)
    (currEpoch : Int) : Except ActorError Unit :=
  if amountToSpend < 0 then
    .error (.illegalArgument s!"amount to spend {amountToSpend} less than zero")
  else if balance < amountToSpend then
    .error (.insufficientFunds
      s!"current balance {balance} less than amount to spend {amountToSpend}")
  else if amountToSpend = 0 then
    -- a transaction that sends no value is always permitted
    .ok ()
  else
    let remainingBalance := balance - amountToSpend
    let amountLocked := st.amountLocked (currEpoch - st.startEpoch)
    if remainingBalance < amountLocked then
      .error (.insufficientFunds
        s!"actor balance {remainingBalance} if spent {amountToSpend} would be less than required locked amount {amountLocked}")
    else .ok ()

/-- `IndexMap::insert`: a new key goes last, a present key keeps its place and takes the
new value. -/
def indexMapInsert {α β : Type} [DecidableEq α] (m : List (α × β)) (k : α) (v : β) :
    List (α × β) :=
  if k ∈ m.map Prod.fst then m.map (fun e => if e.1 = k then (k, v) else e)
  else m ++ [(k, v)]

/-- The `for_each` pass of `purge_approvals`: each approver equal to `addr` inserts the
transaction into `txn_ids_to_purge`. -/
def purgeCandidates (addr : Address) (txns : List (Σ _ : Int, Transaction)) :
    List (Int × Transaction) :=
  txns.foldl (fun acc e => e.2.approved.foldl
    (fun acc approver => if approver = addr then indexMapInsert acc e.1 e.2 else acc) acc) []

/-- The update pass of `purge_approvals`, over `txn_ids_to_purge` in insertion order. -/
def purgeUpdate (addr : Address) (txns : AList (fun _ : Int => Transaction))
    (toPurge : List (Int × Transaction)) : AList (fun _ : Int => Transaction) :=
  toPurge.foldl (fun txns e =>
    let txn : Transaction := { e.2 with approved := e.2.approved.filter (· ≠ addr) }
    if !txn.approved.isEmpty then txns.insert e.1 txn else txns.erase e.1) txns

def State.purgeApprovals (st : State) (addr : Address) : State :=
  { st with pendingTxs :=
      purgeUpdate addr st.pendingTxs (purgeCandidates addr st.pendingTxs.entries) }

end BuiltinActors.Multisig
