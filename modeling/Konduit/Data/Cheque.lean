import Konduit.Data.Duration
import Konduit.Data.Tag

/-!
# Cheques

A cheque promises an amount for the secret behind a lock, until a timeout.  The consumer
signs the body with the lock; once the secret is known it takes the lock's place.
-/

open Lib

namespace Konduit.Data

/-- A lock or a secret: 32 bytes. -/
class Latch (T : Type) where
  bytes : T → BytesN 32
  ofBytes : BytesN 32 → T
  ofBytes_bytes : ∀ latch, ofBytes (bytes latch) = latch

/-- The hash of a secret. -/
structure Lock where
  bytes : BytesN 32
deriving DecidableEq

/-- What opens a lock. -/
structure Secret where
  bytes : BytesN 32
deriving DecidableEq

instance : Latch Lock := ⟨Lock.bytes, Lock.mk, fun _ => rfl⟩

instance : Latch Secret := ⟨Secret.bytes, Secret.mk, fun _ => rfl⟩

/-- The lock that a secret opens. -/
def Lock.ofSecret (crypto : Crypto) (secret : Secret) : Lock := ⟨crypto.sha256 secret.bytes.1⟩

/-- What is signed of a cheque, and the lock or its secret. -/
structure ChequeBody (T : Type) where
  index : UInt64
  amount : UInt64
  timeout : Duration
  latch : T
deriving DecidableEq

namespace ChequeBody

/-- The lock of a locked cheque's body. -/
def lock (self : ChequeBody Lock) : Lock := self.latch

/-- The body that was signed, from the one with the secret. -/
def locked (crypto : Crypto) (self : ChequeBody Secret) : ChequeBody Lock :=
  { self with latch := Lock.ofSecret crypto self.latch }

/-- Put the secret in place of its lock. -/
def tryUnlocked (crypto : Crypto) (self : ChequeBody Lock) (secret : Secret) :
    Option (ChequeBody Secret) :=
  if Lock.ofSecret crypto secret ≠ self.lock then none else some { self with latch := secret }

end ChequeBody

/-- A cheque with a signature, which may have been verified. -/
structure ChequeSigned (T : Type) (V : VerifyState) where
  body : ChequeBody T
  signature : Signature
deriving DecidableEq

/-- A cheque that is locked. -/
abbrev Locked (V : VerifyState) := ChequeSigned Lock V

/-- A cheque with the secret of its lock. -/
abbrev Unlocked (V : VerifyState) := ChequeSigned Secret V

/-- A cheque, locked or not. -/
inductive Cheque (V : VerifyState) where
  | unlocked (cheque : Unlocked V)
  | locked (cheque : Locked V)
deriving DecidableEq

namespace ChequeSigned

variable {T : Type} {V : VerifyState}

/-- The index in the body. -/
def index (self : ChequeSigned T V) : UInt64 := self.body.index

/-- The amount in the body. -/
def amount (self : ChequeSigned T V) : UInt64 := self.body.amount

/-- The timeout in the body. -/
def timeout (self : ChequeSigned T V) : Duration := self.body.timeout

/-- The same cheque, in another state. -/
def withState (W : VerifyState) (self : ChequeSigned T V) : ChequeSigned T W :=
  ⟨self.body, self.signature⟩

end ChequeSigned

namespace Cheque

variable {V : VerifyState}

/-- The index of a cheque. -/
def index : Cheque V → UInt64
  | unlocked cheque | locked cheque => cheque.index

/-- The amount of a cheque. -/
def amount : Cheque V → UInt64
  | unlocked cheque | locked cheque => cheque.amount

/-- The lock that was signed. -/
def lock (crypto : Crypto) : Cheque V → Lock
  | unlocked cheque => (cheque.body.locked crypto).lock
  | locked cheque => cheque.body.lock

/-- The timeout of a cheque. -/
def timeout : Cheque V → Duration
  | unlocked cheque | locked cheque => cheque.timeout

/-- The cheque, if it is unlocked. -/
def asUnlocked : Cheque V → Option (Unlocked V)
  | unlocked cheque => some cheque
  | locked _ => none

/-- The cheque, if it is locked. -/
def asLocked : Cheque V → Option (Locked V)
  | unlocked _ => none
  | locked cheque => some cheque

/-- The cheque as verified, or as not. -/
def withState (W : VerifyState) : Cheque V → Cheque W
  | unlocked cheque => unlocked (cheque.withState W)
  | locked cheque => locked (cheque.withState W)

end Cheque

/-! ### On the wire -/

section Wire

variable {T : Type} [Latch T] {V : VerifyState}

namespace Latch

/-- The bytes of a lock or a secret. -/
def encode (latch : T) : Bytes := Cbor.bytes (Latch.bytes latch).1

/-- A lock or a secret in CBOR. -/
def decode (b : Bytes) : Option (T × Bytes) := do
  let (raw, b) ← Cbor.readBytes b
  let bytes ← BytesN.ofBytes 32 raw
  return (Latch.ofBytes bytes, b)

@[simp] lemma decode_encode (latch : T) (b : Bytes) :
    decode (encode latch ++ b) = some (latch, b) := by
  have hlen : (Latch.bytes latch).1.length < 256 ^ 8 := by
    rw [(Latch.bytes latch).2]
    norm_num
  simp [decode, encode, Cbor.readBytes_bytes b hlen, Latch.ofBytes_bytes]

end Latch

namespace ChequeBody

/-- The body in CBOR, an array without a length. -/
def encode (self : ChequeBody T) : Bytes :=
  Cbor.framed (Cbor.uint self.index ++ Cbor.uint self.amount ++ self.timeout.encode ++
    Latch.encode self.latch)

/-- The fields of a body, in order. -/
def decodeFields (b : Bytes) : Option (ChequeBody T × Bytes) := do
  let (index, b) ← Cbor.readUInt b
  let (amount, b) ← Cbor.readUInt b
  let (timeout, b) ← Duration.decode b
  let (latch, b) ← Latch.decode b
  return (⟨index, amount, timeout, latch⟩, b)

/-- A body in CBOR. -/
def decode : Bytes → Option (ChequeBody T × Bytes) := Cbor.readFramed decodeFields

/-- The body as it comes off the wire: the timeout in whole milliseconds. -/
def wire (self : ChequeBody T) : ChequeBody T :=
  { self with timeout := Duration.fromMillis self.timeout.toU64 }

lemma decode_encode (self : ChequeBody T) (b : Bytes) :
    decode (self.encode ++ b) = some (self.wire, b) := by
  refine Cbor.readFramed_framed b fun b => ?_
  simp [decodeFields, wire]

omit [Latch T] in
lemma wire_eq_self {self : ChequeBody T} : self.wire = self ↔ self.timeout.Canonical := by
  obtain ⟨index, amount, timeout, latch⟩ := self
  simp [wire, Duration.Canonical]

end ChequeBody

namespace ChequeSigned

/-- The body and the signature. -/
def encodeFields (self : ChequeSigned T V) : Bytes := self.body.encode ++ self.signature.encode

/-- A signed cheque in CBOR. -/
def encode (self : ChequeSigned T V) : Bytes := Cbor.framed self.encodeFields

/-- The fields of a signed cheque, in order. -/
def decodeFields (b : Bytes) : Option (ChequeSigned T .unverified × Bytes) := do
  let (body, b) ← ChequeBody.decode b
  let (signature, b) ← Signature.decode b
  return (⟨body, signature⟩, b)

/-- A signed cheque in CBOR. -/
def decode : Bytes → Option (ChequeSigned T .unverified × Bytes) := Cbor.readFramed decodeFields

/-- The cheque as it comes off the wire. -/
def wire (self : ChequeSigned T V) : ChequeSigned T .unverified := ⟨self.body.wire, self.signature⟩

lemma decodeFields_encodeFields (self : ChequeSigned T V) (b : Bytes) :
    decodeFields (self.encodeFields ++ b) = some (self.wire, b) := by
  simp [decodeFields, encodeFields, ChequeBody.decode_encode, wire]

end ChequeSigned

end Wire

namespace Cheque

variable {V : VerifyState}

/-- A cheque in CBOR, a constructor for each of the two. -/
def encode : Cheque V → Bytes
  | unlocked cheque => Cbor.tag 121 ++ Cbor.framed cheque.encodeFields
  | locked cheque => Cbor.tag 122 ++ Cbor.framed cheque.encodeFields

/-- A cheque in CBOR. -/
def decode (b : Bytes) : Option (Cheque .unverified × Bytes) := do
  let (tag, b) ← Cbor.readTag b
  match tag with
  | 121 => do
    let (cheque, b) ← ChequeSigned.decode b
    return (unlocked cheque, b)
  | 122 => do
    let (cheque, b) ← ChequeSigned.decode b
    return (locked cheque, b)
  | _ => none

/-- The cheque as it comes off the wire. -/
def wire : Cheque V → Cheque .unverified
  | unlocked cheque => unlocked cheque.wire
  | locked cheque => locked cheque.wire

/-- What comes off the wire has its timeout in whole milliseconds. -/
lemma canonical_wire (self : Cheque V) (W : VerifyState) :
    (self.wire.withState W).timeout.Canonical := by
  cases self <;> exact Duration.canonical_fromMillis _

lemma reads_cheque (self : Cheque V) : Cbor.Reads decode self.encode self.wire := by
  refine ⟨fun b => ?_, ?_, ?_⟩
  · cases self with
    | unlocked cheque =>
      have hread : ChequeSigned.decode (Cbor.framed cheque.encodeFields ++ b) =
          some (cheque.wire, b) :=
        Cbor.readFramed_framed b cheque.decodeFields_encodeFields
      rw [encode, List.append_assoc, decode, Cbor.readTag_tag _ (by norm_num)]
      simp [hread, wire]
    | locked cheque =>
      have hread : ChequeSigned.decode (Cbor.framed cheque.encodeFields ++ b) =
          some (cheque.wire, b) :=
        Cbor.readFramed_framed b cheque.decodeFields_encodeFields
      rw [encode, List.append_assoc, decode, Cbor.readTag_tag _ (by norm_num)]
      simp [hread, wire]
  · cases self <;> simp [encode, Cbor.framed, Cbor.beginArray]
  · intro b b'
    cases self <;> rw [encode, List.append_assoc] <;> exact Cbor.head_ne_break (by norm_num) _ _

end Cheque

/-! ### Signatures -/

section Verify

variable (crypto : Crypto) (key : VerifyingKey) (tag : Tag)

/-- Verify the signature, by the key and the tag. -/
def Locked.tryVerify (self : Locked .unverified) : Except VerifyError (Locked .verified) :=
  if key.verify crypto (tag.data self.body.encode) self.signature then
    .ok ⟨self.body, self.signature⟩
  else .error .invalidSignature

variable {crypto key tag} in
lemma Locked.tryVerify_eq_ok {self : Locked .unverified} {self' : Locked .verified} :
    self.tryVerify crypto key tag = .ok self' ↔
      key.verify crypto (tag.data self.body.encode) self.signature = true ∧
        self' = ⟨self.body, self.signature⟩ := by
  rw [tryVerify]
  split_ifs with h <;> simp [h, eq_comm]

/-- Verify the signature, which is over the lock of the secret. -/
def Unlocked.tryVerify (self : Unlocked .unverified) : Except VerifyError (Unlocked .verified) :=
  if key.verify crypto (tag.data (self.body.locked crypto).encode) self.signature then
    .ok ⟨self.body, self.signature⟩
  else .error .invalidSignature

/-- Put the secret in place of its lock. -/
def Unlocked.tryFromLocked {V : VerifyState} (locked : Locked V) (secret : Secret) :
    Option (Unlocked V) :=
  (locked.body.tryUnlocked crypto secret).map fun body => ⟨body, locked.signature⟩

end Verify

end Konduit.Data
