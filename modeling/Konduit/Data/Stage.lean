import Konduit.Data.Cheque
import Konduit.Data.Squash
import Konduit.Kernel.Types

/-!
# Channel data between the two sides

The off-chain view of what a channel's datum and redeemer hold, and what of it the kernel
sees: integers of 64 bits and byte strings of a length, as plain ones.
-/

open Lib

namespace Konduit.Data

/-- An on-chain time is in milliseconds. -/
def Duration.toInt (d : Duration) : ℤ := d.toU64.toNat

/-- On chain a canonical duration is its milliseconds. -/
lemma Duration.toInt_of_canonical {d : Duration} (h : d.Canonical) : d.toInt = d.asMillis := by
  rw [toInt, toNat_toU64, Nat.mod_eq_of_lt (asMillis_lt_of_canonical h)]

lemma Duration.toInt_inj {a b : Duration} (ha : a.Canonical) (hb : b.Canonical)
    (h : a.toInt = b.toInt) : a = b := by
  have : a.toU64 = b.toU64 := UInt64.toNat_inj.mp (by simpa [toInt] using h)
  rw [← ha, ← hb, this]

/-- A cheque that was subbed but not squashed. -/
structure Used where
  index : UInt64
  amount : UInt64
deriving DecidableEq

/-- A cheque that was locked at the respond. -/
structure Pending where
  amount : UInt64
  timeout : Duration
  lock : Lock
deriving DecidableEq

/-- The stage of a channel. -/
inductive Stage where
  | opened (subbed : UInt64) (useds : List Used)
  | closed (subbed : UInt64) (useds : List Used) (elapseAt : Duration)
  | responded (pendingsAmount : UInt64) (pendings : List Pending)
deriving DecidableEq

/-- What never changes of a channel. -/
structure Constants where
  tag : Tag
  addVkey : VerifyingKey
  subVkey : VerifyingKey
  closePeriod : Duration
deriving DecidableEq

/-- What to do with a pending. -/
inductive Unpend where
  | continue
  | expire
  | unlock (secret : BytesN 32)
deriving DecidableEq

namespace Used

/-- The used cheque as the kernel reads it. -/
def toKernel (self : Used) : Kernel.Used := ⟨self.index.toNat, self.amount.toNat⟩

/-- A used cheque in CBOR, an array without a length. -/
def encode (self : Used) : Bytes := Cbor.framed (Cbor.uint self.index ++ Cbor.uint self.amount)

/-- The index and the amount. -/
def decodeFields (b : Bytes) : Option (Used × Bytes) := do
  let (index, b) ← Cbor.readUInt b
  let (amount, b) ← Cbor.readUInt b
  return (⟨index, amount⟩, b)

/-- A used cheque in CBOR. -/
def decode : Bytes → Option (Used × Bytes) := Cbor.readFramed decodeFields

lemma decode_encode (self : Used) (b : Bytes) : decode (self.encode ++ b) = some (self, b) := by
  refine Cbor.readFramed_framed b fun b => ?_
  simp [decodeFields]

end Used

namespace Pending

/-- The pending cheque as the kernel reads it. -/
def toKernel (self : Pending) : Kernel.Pending :=
  ⟨self.amount.toNat, self.timeout.toInt, self.lock.bytes.1⟩

/-- Two pendings that are the same on chain are the same. -/
lemma toKernel_inj {a b : Pending} (ha : a.timeout.Canonical) (hb : b.timeout.Canonical)
    (h : a.toKernel = b.toKernel) : a = b := by
  obtain ⟨amount, timeout, ⟨lock⟩⟩ := a
  obtain ⟨amount', timeout', ⟨lock'⟩⟩ := b
  simp only [toKernel, Kernel.Pending.mk.injEq, Nat.cast_inj, UInt64.toNat_inj] at h
  obtain ⟨rfl, htimeout, hlock⟩ := h
  obtain rfl := Duration.toInt_inj ha hb htimeout
  obtain rfl := Subtype.ext hlock
  rfl

end Pending

namespace Stage

/-- The stage as the kernel reads it. -/
def toKernel : Stage → Kernel.Stage
  | opened subbed useds => .opened subbed.toNat (useds.map Used.toKernel)
  | closed subbed useds elapseAt =>
    .closed subbed.toNat (useds.map Used.toKernel) elapseAt.toInt
  | responded pendingsAmount pendings =>
    .responded pendingsAmount.toNat (pendings.map Pending.toKernel)

/-- All times of the stage are whole milliseconds in 64 bits. -/
def Canonical : Stage → Prop
  | opened _ _ => True
  | closed _ _ elapseAt => elapseAt.Canonical
  | responded _ pendings => ∀ p ∈ pendings, p.timeout.Canonical

end Stage

namespace Constants

/-- The constants as the kernel reads them. -/
def toKernel (self : Constants) : Kernel.Constants :=
  ⟨self.tag.bytes, self.addVkey.bytes.1, self.subVkey.bytes.1, self.closePeriod.toInt⟩

end Constants

namespace Unpend

/-- The pending stays. -/
def isContinue : Unpend → Bool
  | .continue => true
  | _ => false

/-- The instruction as the kernel reads it. -/
def toKernel : Unpend → Kernel.Unpend
  | .continue => []
  | expire => [0]
  | unlock secret => secret.1

/-- On chain an unpend continues when it is empty. -/
lemma toKernel_eq_nil {self : Unpend} : self.toKernel = [] ↔ self.isContinue = true := by
  cases self with
  | «continue» => simp [toKernel, isContinue]
  | expire => simp [toKernel, isContinue]
  | unlock secret =>
    have : secret.1 ≠ [] := by
      intro h
      simpa [h] using secret.2
    simp [toKernel, isContinue, this]

end Unpend

/-! ### Evidence and steps -/

section Evidence

variable {V : VerifyState}

/-- A cheque body on chain: the latch loses its type. -/
def ChequeBody.toKernel {T : Type} [Latch T] (self : ChequeBody T) : Kernel.ChequeBody :=
  ⟨self.index.toNat, self.amount.toNat, self.timeout.toInt, (Latch.bytes self.latch).1⟩

/-- An unlocked cheque as the kernel reads it. -/
def Unlocked.toKernel (self : Unlocked V) : Kernel.Unlocked :=
  ⟨self.body.toKernel, self.signature.bytes.1⟩

/-- A cheque as the kernel reads it. -/
def Cheque.toKernel : Cheque V → Kernel.Cheque
  | unlocked cheque => .unlockedCheque cheque.body.toKernel cheque.signature.bytes.1
  | locked cheque => .lockedCheque cheque.body.toKernel cheque.signature.bytes.1

/-- The body of a squash as the kernel reads it. -/
def SquashBody.toKernel (self : SquashBody) : Kernel.SquashBody :=
  ⟨self.amount.toNat, self.index.toNat, self.exclude.items.map fun i => (i.toNat : ℤ)⟩

/-- A squash as the kernel reads it. -/
def Squash.toKernel (self : Squash V) : Kernel.Squash :=
  ⟨self.body.toKernel, self.signature.bytes.1⟩

end Evidence

/-- The steps with a continuing output. -/
inductive Cont where
  | add
  | sub (squash : Squash .unverified) (unlockeds : List (Unlocked .unverified))
  | close
  | respond (squash : Squash .unverified) (cheques : List (Cheque .unverified))
  | unlock (unpends : List Unpend)
  | expire (unpends : List Unpend)

/-- A step that a channel goes on from, as the kernel reads it. -/
def Cont.toKernel : Cont → Kernel.Cont
  | add => .add
  | sub squash unlockeds => .sub squash.toKernel (unlockeds.map Unlocked.toKernel)
  | close => .close
  | respond squash cheques => .respond squash.toKernel (cheques.map Cheque.toKernel)
  | unlock unpends => .unlock (unpends.map Unpend.toKernel)
  | expire unpends => .expire (unpends.map Unpend.toKernel)

end Konduit.Data
