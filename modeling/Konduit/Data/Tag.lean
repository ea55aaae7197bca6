import Konduit.Crypto
import Konduit.Lib.Plutus

/-!
# Tags, keys and signatures

What the consumer signs is a pair of the channel's tag and a body, as CBOR.
-/

open Lib

namespace Konduit.Data

/-- Whether a signed value was verified; values only differ in their type by it. -/
inductive VerifyState where
  | unverified
  | verified

/-- Why a signature is refused. -/
inductive VerifyError where
  | invalidSignature
deriving DecidableEq

/-- A signature. -/
structure Signature where
  bytes : BytesN 64
deriving DecidableEq

/-- A key that verifies signatures. -/
structure VerifyingKey where
  bytes : BytesN 32
deriving DecidableEq

/-- A key that signs. -/
structure SigningKey where
  bytes : BytesN 32

/-- What tells apart the channels between two keys. -/
structure Tag where
  bytes : Bytes
deriving DecidableEq

/-- The key verifies a signature of the message. -/
def VerifyingKey.verify (crypto : Crypto) (key : VerifyingKey) (message : Bytes)
    (signature : Signature) : Bool :=
  crypto.verify key.bytes.1 message signature.bytes.1

/-- The signature of a message. -/
def SigningKey.sign (crypto : Crypto) (key : SigningKey) (message : Bytes) : Signature :=
  ⟨crypto.sign key.bytes message⟩

/-- The key that verifies what this one signs. -/
def SigningKey.verifyingKey (crypto : Crypto) (key : SigningKey) : VerifyingKey :=
  ⟨crypto.verificationKey key.bytes⟩

lemma SigningKey.verify_sign (crypto : Crypto) (key : SigningKey) (message : Bytes) :
    (key.verifyingKey crypto).verify crypto message (key.sign crypto message) = true :=
  crypto.verify_sign key.bytes message

/-! ### On the wire -/

namespace PlutusBytes

/-- The greatest length of a chunk. -/
def chunkSize : ℕ := 64

/-- A byte string as on chain, in chunks when it is long. -/
def encode (val : Bytes) : Bytes :=
  if val.length ≤ chunkSize then Cbor.bytes val
  else Cbor.beginBytes ++ (val.slices chunkSize).flatMap Cbor.bytes ++ Cbor.stop

/-- Bytes whole or in chunks. -/
def decode (b : Bytes) : Option (Bytes × Bytes) := Cbor.readChunks b

lemma encode_eq (val : Bytes) : encode val = Plutus.serialiseBytes val := by
  rw [encode, show chunkSize = Plutus.chunkLength from rfl, Plutus.slices_eq_chunks]
  rfl

@[simp] lemma decode_encode (val b : Bytes) : decode (encode val ++ b) = some (val, b) := by
  rw [encode_eq]
  exact Plutus.readChunks_serialiseBytes val b

end PlutusBytes

namespace VerifyingKey

/-- A key in CBOR. -/
def encode (self : VerifyingKey) : Bytes := Cbor.bytes self.bytes.1

/-- A key in CBOR. -/
def decode (b : Bytes) : Option (VerifyingKey × Bytes) := do
  let (raw, b) ← Cbor.readChunks b
  let bytes ← BytesN.ofBytes 32 raw
  return (⟨bytes⟩, b)

@[simp] lemma decode_encode (self : VerifyingKey) (b : Bytes) :
    decode (self.encode ++ b) = some (self, b) := by
  have hlen : self.bytes.1.length < 256 ^ 8 := by rw [self.bytes.2]; norm_num
  simp [decode, encode, Cbor.readChunks_bytes b hlen]

end VerifyingKey

namespace Signature

/-- A signature in CBOR. -/
def encode (self : Signature) : Bytes := Cbor.bytes self.bytes.1

/-- A signature in CBOR. -/
def decode (b : Bytes) : Option (Signature × Bytes) := do
  let (raw, b) ← Cbor.readChunks b
  let bytes ← BytesN.ofBytes 64 raw
  return (⟨bytes⟩, b)

@[simp] lemma decode_encode (self : Signature) (b : Bytes) :
    decode (self.encode ++ b) = some (self, b) := by
  have hlen : self.bytes.1.length < 256 ^ 8 := by rw [self.bytes.2]; norm_num
  simp [decode, encode, Cbor.readChunks_bytes b hlen]

end Signature

namespace Tag

/-- A tag in CBOR, in chunks when it is long. -/
def encode (self : Tag) : Bytes := PlutusBytes.encode self.bytes

/-- A tag in CBOR. -/
def decode (b : Bytes) : Option (Tag × Bytes) := do
  let (bytes, b) ← PlutusBytes.decode b
  return (⟨bytes⟩, b)

@[simp] lemma decode_encode (self : Tag) (b : Bytes) :
    decode (self.encode ++ b) = some (self, b) := by
  simp [decode, encode]

/-- The message under a signature: the tag and the encoded body. -/
def data (self : Tag) (body : Bytes) : Bytes := Cbor.framed (self.encode ++ body)

end Tag

end Konduit.Data
