import Mathlib.Data.List.AList

namespace BuiltinActors

instance instDecidableEqExcept {ε α : Type} [DecidableEq ε] [DecidableEq α] :
    DecidableEq (Except ε α)
  | .ok a, .ok b => if h : a = b then isTrue (congrArg _ h) else isFalse fun e => h (Except.ok.inj e)
  | .error a, .error b =>
    if h : a = b then isTrue (congrArg _ h) else isFalse fun e => h (Except.error.inj e)
  | .ok _, .error _ => isFalse Except.noConfusion
  | .error _, .ok _ => isFalse Except.noConfusion

/-- Address protocols of `fvm_shared::address::Protocol`. -/
inductive Protocol
  | id
  | secp256k1
  | actor
  | bls
  | delegated
  deriving DecidableEq, Repr

/-- An address by its payload; an ID address carries the actor ID itself. -/
inductive Address
  | id (actorId : Nat)
  | secp256k1 (hash : List UInt8)
  | actor (hash : List UInt8)
  | bls (key : List UInt8)
  | delegated (nsId : Nat) (subaddress : List UInt8)
  deriving DecidableEq, Repr

def Address.protocol : Address → Protocol
  | .id _ => .id
  | .secp256k1 _ => .secp256k1
  | .actor _ => .actor
  | .bls _ => .bls
  | .delegated _ _ => .delegated

/-- The textual form used in error messages: network prefix, protocol digit and payload
(the payload bytes are listed instead of base32 with a checksum). -/
def Address.toString : Address → String
  | .id n => s!"f0{n}"
  | .delegated n sub => s!"f4{n}f{sub}"
  | .secp256k1 b => s!"f1{b}"
  | .actor b => s!"f2{b}"
  | .bls b => s!"f3{b}"

instance : ToString Address := ⟨Address.toString⟩

/-- The user exit codes the modelled methods return. -/
inductive ExitCode
  | usrIllegalArgument
  | usrNotFound
  | usrForbidden
  | usrInsufficientFunds
  | usrIllegalState
  deriving DecidableEq, Repr

/-- `ActorError`: an exit code and its message. -/
structure ActorError where
  exitCode : ExitCode
  msg : String
  deriving DecidableEq, Repr

def ActorError.illegalArgument (msg : String) : ActorError := ⟨.usrIllegalArgument, msg⟩
def ActorError.notFound (msg : String) : ActorError := ⟨.usrNotFound, msg⟩
def ActorError.forbidden (msg : String) : ActorError := ⟨.usrForbidden, msg⟩
def ActorError.insufficientFunds (msg : String) : ActorError := ⟨.usrInsufficientFunds, msg⟩
def ActorError.illegalState (msg : String) : ActorError := ⟨.usrIllegalState, msg⟩

end BuiltinActors
