import Konduit.Data.SquashBody
import Konduit.Data.Tag

/-!
# Squashes

A squash body under the consumer's signature.
-/

open Lib

namespace Konduit.Data

/-- A squash with a signature, which may have been verified. -/
structure Squash (V : VerifyState) where
  body : SquashBody
  signature : Signature
deriving DecidableEq

namespace Squash

variable {V : VerifyState}

/-- The index in the body. -/
def index (self : Squash V) : UInt64 := self.body.index

/-- The amount in the body. -/
def amount (self : Squash V) : UInt64 := self.body.amount

/-- The squash covers the index. -/
def isIndexSquashed (self : Squash V) (index : UInt64) : Bool := self.body.isIndexSquashed index

/-- The same squash, in another state. -/
def withState (W : VerifyState) (self : Squash V) : Squash W := ⟨self.body, self.signature⟩

/-- Verify the signature, by the key and the tag. -/
def tryVerify (crypto : Crypto) (key : VerifyingKey) (tag : Tag) (self : Squash .unverified) :
    Except VerifyError (Squash .verified) :=
  if key.verify crypto (tag.data self.body.encode) self.signature then
    .ok (self.withState .verified)
  else .error .invalidSignature

/-- Sign a body. -/
def make (crypto : Crypto) (key : SigningKey) (tag : Tag) (body : SquashBody) : Squash .verified :=
  ⟨body, key.sign crypto (tag.data body.encode)⟩

variable {crypto : Crypto} {key : VerifyingKey} {tag : Tag} {self : Squash .unverified}
  {self' : Squash .verified}

lemma tryVerify_eq_ok :
    self.tryVerify crypto key tag = .ok self' ↔
      key.verify crypto (tag.data self.body.encode) self.signature = true ∧
        self' = self.withState .verified := by
  rw [tryVerify]
  split_ifs with h <;> simp [h, eq_comm]

/-- What a consumer signs verifies under its key. -/
lemma tryVerify_make (sk : SigningKey) (body : SquashBody) :
    ((make crypto sk tag body).withState .unverified).tryVerify crypto (sk.verifyingKey crypto)
      tag = .ok (make crypto sk tag body) :=
  tryVerify_eq_ok.mpr ⟨sk.verify_sign crypto _, rfl⟩

/-! ### On the wire -/

/-- A squash in CBOR, an array without a length. -/
def encode (self : Squash V) : Bytes := Cbor.framed (self.body.encode ++ self.signature.encode)

/-- The body and the signature. -/
def decodeFields (b : Bytes) : Option (Squash .unverified × Bytes) := do
  let (body, b) ← SquashBody.decode b
  let (signature, b) ← Signature.decode b
  return (⟨body, signature⟩, b)

/-- A squash in CBOR. -/
def decode : Bytes → Option (Squash .unverified × Bytes) := Cbor.readFramed decodeFields

/-- A squash is read back when its body is well-formed, and not at all otherwise. -/
lemma decode_encode (self : Squash V) (b : Bytes) :
    decode (self.encode ++ b) =
      if self.body.WellFormed then some (self.withState .unverified, b) else none := by
  split_ifs with h
  · refine Cbor.readFramed_framed b fun b => ?_
    simp [decodeFields, SquashBody.decode_encode, h, withState]
  · simp [decode, encode, Cbor.readFramed, Cbor.framed, decodeFields, SquashBody.decode_encode, h]

lemma wellFormed_of_decode {b b' : Bytes} (h : decode b = some (self, b')) :
    self.body.WellFormed := by
  simp only [decode, Cbor.readFramed, decodeFields, Option.bind_eq_bind, Option.bind_eq_some_iff,
    Option.pure_def, Option.some.injEq, Prod.mk.injEq] at h
  obtain ⟨_, _, _, ⟨⟨body, _⟩, hbody, _, _, rfl⟩, _, _, rfl, _⟩ := h
  exact SquashBody.wellFormed_of_decode hbody

end Squash

end Konduit.Data
