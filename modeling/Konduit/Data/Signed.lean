import Konduit.Data.Stage
import Konduit.Kernel.Evidence
import Konduit.Lib.Result

/-!
# One message on both sides

What the consumer signs off chain is, byte for byte, what the kernel serialises: so a
squash or a cheque that verifies off chain is well-signed on chain.  A timeout is signed
and written as its milliseconds in 64 bits.
-/

open Lib

namespace Konduit.Data

/-! ### Encodings -/

lemma encode_uint (n : UInt64) : Cbor.uint n = Plutus.serialise (.int n.toNat) := by
  have hlt : n.toNat < 2 ^ 64 := n.toNat_lt
  change Cbor.head 0 n.toNat = Plutus.serialiseInt (.ofNat n.toNat)
  rw [Plutus.serialiseInt, if_pos hlt]

lemma encode_exclude (exclude : Indexes) :
    exclude.encode = Plutus.serialise (.list (exclude.items.map fun i => .int i.toNat)) := by
  have hitems : ∀ items : List UInt64, items.flatMap Cbor.uint =
      Plutus.serialiseItems (items.map fun i => .int i.toNat) := by
    intro items
    induction items with
    | nil => rfl
    | cons i items ih =>
      rw [List.flatMap_cons, List.map_cons, Plutus.serialiseItems, ih, encode_uint]
  rw [Indexes.encode, Cbor.list, Plutus.serialise, Plutus.frame, hitems]
  cases exclude.items with
  | nil => rfl
  | cons i items => simp [Cbor.framed]

/-- A pair of an encoded tag and an encoded value is the encoded pair. -/
lemma Tag.data_serialise (tag : Tag) (d : Plutus.Data) :
    tag.data (Plutus.serialise d) = Plutus.serialise (.list [.bytes tag.bytes, d]) := by
  simp [Tag.data, Tag.encode, PlutusBytes.encode_eq, Cbor.framed, Plutus.serialise,
    Plutus.serialiseItems, Plutus.frame]

lemma SquashBody.encode_eq (self : SquashBody) :
    self.encode = Plutus.serialise (Kernel.ToData.toData self.toKernel) := by
  have hexclude : (self.toKernel.exclude.map Plutus.Data.int) =
      self.exclude.items.map fun i => .int i.toNat := by
    rw [toKernel, List.map_map]
    rfl
  simp only [encode, Kernel.ToData.toData, hexclude, encode_uint, encode_exclude]
  simp [toKernel, Cbor.framed, Plutus.serialise, Plutus.serialiseItems, Plutus.frame]

lemma ChequeBody.encode_eq {T : Type} [Latch T] (self : ChequeBody T) :
    self.encode = Plutus.serialise (Kernel.ToData.toData self.toKernel) := by
  have hlatch : Latch.encode self.latch = Plutus.serialise (.bytes (Latch.bytes self.latch).1) := by
    have hlen : (Latch.bytes self.latch).1.length ≤ Plutus.chunkLength := by
      rw [(Latch.bytes self.latch).2]
      decide
    rw [Latch.encode, Plutus.serialise, Plutus.serialiseBytes, if_pos hlen]
  simp only [encode, Kernel.ToData.toData, Duration.encode, hlatch, encode_uint]
  simp [toKernel, Duration.toInt, Cbor.framed, Plutus.serialise, Plutus.serialiseItems,
    Plutus.frame]

/-! ### Signatures -/

section Verifies

variable (crypto : Crypto) (key : VerifyingKey) (tag : Tag) {V : VerifyState}

/-- The squash verifies, in whichever state it is at hand. -/
def Squash.Verifies (self : Squash V) : Prop :=
  (self.withState .unverified).tryVerify crypto key tag = .ok (self.withState .verified)

/-- The cheque verifies. -/
def Unlocked.Verifies (self : Unlocked V) : Prop :=
  Unlocked.tryVerify crypto key tag (self.withState .unverified) = .ok (self.withState .verified)

/-- The cheque verifies. -/
def Locked.Verifies (self : Locked V) : Prop :=
  Locked.tryVerify crypto key tag (self.withState .unverified) = .ok (self.withState .verified)

/-- The cheque verifies, locked or unlocked. -/
def Cheque.Verifies : Cheque V → Prop
  | unlocked cheque => Unlocked.Verifies crypto key tag cheque
  | locked cheque => Locked.Verifies crypto key tag cheque

variable {crypto key tag}

lemma Squash.verifies_iff {self : Squash V} :
    self.Verifies crypto key tag ↔
      Kernel.wellsigned crypto key.bytes.1 tag.bytes self.toKernel.body self.toKernel.signature =
        true := by
  rw [Verifies, tryVerify_eq_ok, VerifyingKey.verify, SquashBody.encode_eq, Tag.data_serialise]
  exact and_iff_left rfl

lemma Unlocked.verifies_iff {self : Unlocked V} :
    Unlocked.Verifies crypto key tag self ↔
      Kernel.wellsigned crypto key.bytes.1 tag.bytes
        ((Unlocked.toKernel self).body.locked crypto) (Unlocked.toKernel self).signature =
          true := by
  rw [Verifies, tryVerify, VerifyingKey.verify, ChequeBody.encode_eq, Tag.data_serialise]
  exact Result.check_eq_ok

lemma Locked.verifies_iff {self : Locked V} :
    Locked.Verifies crypto key tag self ↔
      Kernel.wellsigned crypto key.bytes.1 tag.bytes self.body.toKernel self.signature.bytes.1 =
        true := by
  rw [Verifies, tryVerify, VerifyingKey.verify, ChequeBody.encode_eq, Tag.data_serialise]
  exact Result.check_eq_ok

/-- An unlocked cheque that verifies is proven on chain up to its timeout in 64 bits. -/
lemma Unlocked.proven_iff {self : Unlocked V} (h : Unlocked.Verifies crypto key tag self) {t : ℤ} :
    (Unlocked.toKernel self).Proven crypto (.finite t) key.bytes.1 tag.bytes ↔
      t ≤ self.timeout.toInt := by
  constructor
  · rintro ⟨-, -, _, heq, hle⟩
    obtain rfl := Kernel.Timebound.finite.inj heq
    exact hle
  · intro hle
    exact ⟨verifies_iff.mp h, (Latch.bytes self.body.latch).2, t, rfl, hle⟩

end Verifies

/-! ### What a squash covers -/

lemma SquashBody.wellFormed_toKernel {self : SquashBody} (h : self.WellFormed) :
    self.toKernel.WellFormed := by
  constructor
  · refine List.pairwise_map.mpr (h.exclude.sorted.imp fun {i j} hij => ?_)
    exact_mod_cast UInt64.lt_iff_toNat_lt.mp hij
  · intro i hi
    obtain ⟨w, hw, rfl⟩ := List.mem_map.mp hi
    change (w.toNat : ℤ) < self.index.toNat
    exact_mod_cast UInt64.lt_iff_toNat_lt.mp (h.below w hw)

/-- The indexes that are squashed are those that the kernel takes to be covered. -/
lemma SquashBody.covers_toKernel {self : SquashBody} {i : UInt64} :
    self.toKernel.Covers i.toNat ↔ self.Squashed i := by
  have hmem : (i.toNat : ℤ) ∈ self.toKernel.exclude ↔ i ∈ self.exclude.items := by
    rw [toKernel, List.mem_map]
    constructor
    · rintro ⟨w, hw, heq⟩
      rwa [← UInt64.toNat_inj.mp (Nat.cast_inj.mp heq)]
    · exact fun hi => ⟨i, hi, rfl⟩
  rw [Kernel.SquashBody.covers_iff, hmem, Squashed, UInt64.le_iff_toNat_le, toKernel, Nat.cast_le]

/-- The same indexes are squashed on both sides. -/
lemma Squash.covers_iff {V : VerifyState} {self : Squash V} (h : self.body.WellFormed)
    {i : UInt64} : self.toKernel.body.Covers i.toNat ↔ self.isIndexSquashed i = true := by
  rw [isIndexSquashed, SquashBody.isIndexSquashed_iff h]
  exact SquashBody.covers_toKernel

end Konduit.Data
