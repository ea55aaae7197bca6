import Konduit.Crypto
import Konduit.Lib.Plutus

/-!
# The kernel's types

The data of the on-chain validator: channel constants and stages, the evidence that steps
carry, and the bytes under a signature.  Integers are unbounded on chain, and byte strings
have no length until a step checks one.
-/

open Lib

namespace Konduit.Kernel

/-- The index of a cheque. -/
abbrev Index := ℤ

/-- An amount of lovelace. -/
abbrev Amount := ℤ

/-- A time, in milliseconds. -/
abbrev Timestamp := ℤ

/-- The hash of a secret. -/
abbrev Lock := Bytes

/-- What a lock is the hash of. -/
abbrev Secret := Bytes

/-- A signature. -/
abbrev Signature := Bytes

/-- A key that verifies signatures. -/
abbrev VerificationKey := Bytes

/-- What tells apart the channels between two keys. -/
abbrev Tag := Bytes

/-- One end of a transaction's validity interval. -/
inductive Timebound where
  | negativeInfinity
  | finite (t : Timestamp)
  | positiveInfinity
deriving DecidableEq

/-- A cheque body.  The latch is the lock of a locked cheque and the secret of an unlocked
one. -/
structure ChequeBody where
  index : Index
  amount : Amount
  timeout : Timestamp
  latch : Bytes
deriving DecidableEq, Inhabited

/-- An unlocked cheque: the signature is over the body with the lock in place of the
secret. -/
structure Unlocked where
  body : ChequeBody
  signature : Signature
deriving DecidableEq, Inhabited

/-- A cheque, with its secret or still with its lock. -/
inductive Cheque where
  | unlockedCheque (body : ChequeBody) (signature : Signature)
  | lockedCheque (body : ChequeBody) (signature : Signature)
deriving DecidableEq

/-- The indexes that a squash leaves out. -/
abbrev Exclude := List Index

/-- Evidence for all cheques up to an index but those excluded. -/
structure SquashBody where
  amount : Amount
  index : Index
  exclude : Exclude
deriving DecidableEq

/-- A squash that was signed. -/
structure Squash where
  body : SquashBody
  signature : Signature
deriving DecidableEq

/-- What stays in the datum over the life of a channel. -/
structure Constants where
  tag : Tag
  addVkey : VerificationKey
  subVkey : VerificationKey
  closePeriod : ℤ
deriving DecidableEq

/-- A cheque that was subbed. -/
structure Used where
  index : Index
  amount : Amount
deriving DecidableEq

/-- A cheque that can still be unlocked. -/
structure Pending where
  amount : Amount
  timeout : Timestamp
  lock : Lock
deriving DecidableEq

/-- The stage of a channel. -/
inductive Stage where
  | opened (subbed : Amount) (useds : List Used)
  | closed (subbed : Amount) (useds : List Used) (elapseAt : Timestamp)
  | responded (pendsAmount : Amount) (pends : List Pending)
deriving DecidableEq

/-- The empty byte string continues a pending cheque, any other is a secret. -/
abbrev Unpend := Bytes

/-- The steps with a continuing output. -/
inductive Cont where
  | add
  | sub (squash : Squash) (unlockeds : List Unlocked)
  | close
  | respond (squash : Squash) (cheques : List Cheque)
  | unlock (unpends : List Unpend)
  | expire (unpends : List Unpend)

/-- The steps that end a channel. -/
inductive Eol where
  | «end»
  | elapse

/-! ### Well-formedness -/

/-- A body as data: the message under a signature is the pair of the tag and the body. -/
class ToData (α : Type) where
  toData : α → Plutus.Data

open ToData Plutus in
instance : ToData SquashBody where
  toData b := .list [.int b.amount, .int b.index, .list (b.exclude.map .int)]

open ToData Plutus in
instance : ToData ChequeBody where
  toData b := .list [.int b.index, .int b.amount, .int b.timeout, .bytes b.latch]

/-- The builtin check of a signature over the serialised pair of the tag and the body. -/
def wellsigned (crypto : Crypto) (key : VerificationKey) (tag : Tag) {α : Type} [ToData α]
    (body : α) (signature : Signature) : Bool :=
  crypto.verify key (Plutus.serialise (.list [.bytes tag, ToData.toData body])) signature

/-- An `expect`: the script fails unless the condition holds. -/
def expect (p : Prop) [Decidable p] : Option Unit := if p then some () else none

@[simp] lemma expect_eq_some {p : Prop} [Decidable p] {u : Unit} : expect p = some u ↔ p := by
  simp [expect]

lemma expect_of {p : Prop} [Decidable p] (h : p) : expect p = some () := if_pos h

/-- A finite bound; the script fails on any other. -/
def Timebound.finite? : Timebound → Option Timestamp
  | .finite t => some t
  | _ => none

@[simp] lemma Timebound.finite?_eq_some {b : Timebound} {t : Timestamp} :
    b.finite? = some t ↔ b = .finite t := by
  cases b <;> simp [Timebound.finite?]

end Konduit.Kernel
