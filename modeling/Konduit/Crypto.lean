import Konduit.Lib.Bytes

/-!
# Cryptographic primitives

Ed25519 signatures and the two hash functions, as the kernel's builtins and the off-chain
crates both use them.  They are a parameter of the development; what is assumed of them is
a field of the structure.
-/

open Lib

namespace Konduit

/-- Hash functions and signatures. -/
structure Crypto where
  sha256 : Bytes → BytesN 32
  blake2b224 : Bytes → BytesN 28
  verify : Bytes → Bytes → Bytes → Bool
  /-- Sign a message with a signing key. -/
  sign : BytesN 32 → Bytes → BytesN 64
  /-- The verification key of a signing key. -/
  verificationKey : BytesN 32 → BytesN 32
  verify_sign : ∀ key msg, verify (verificationKey key).1 msg (sign key msg).1 = true

namespace Crypto

/-- The SHA2-256 digest of 32 zero bytes. -/
def zeroLock : BytesN 32 :=
  ⟨[0x66, 0x68, 0x7a, 0xad, 0xf8, 0x62, 0xbd, 0x77, 0x6c, 0x8f, 0xc1, 0x8b, 0x8e, 0x9f, 0x8e, 0x20,
    0x08, 0x97, 0x14, 0x85, 0x6e, 0xe2, 0x33, 0xb3, 0x90, 0x2a, 0x59, 0x1d, 0x0d, 0x5f, 0x29, 0x25],
    rfl⟩

/-- The environment `env/no_crypto`, in which every signature verifies.  Its hash is the
real one on the secret of 32 zero bytes, the only secret it is used with. -/
def noCrypto : Crypto where
  sha256 b := if b = List.replicate 32 0 then zeroLock else BytesN.fill 32 0
  blake2b224 _ := BytesN.fill 28 0
  verify _ _ _ := true
  sign _ _ := BytesN.fill 64 0
  verificationKey key := key
  verify_sign _ _ := rfl

end Crypto

end Konduit
