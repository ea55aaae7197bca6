import Konduit.Cardano.Output
import Konduit.Lib.Cbor

/-!
# The least value of an output

What an output needs to hold grows with its encoding, and the encoding has the lovelace that it
holds, in one, two, three, five or nine bytes.  The code counts five bytes for what takes fewer, so
that the least value does not depend on the value.  Three bytes are taken for everything below
65536, but counted as five only below 65535 (`min_acceptable_value_iff`).
-/

open Lib

namespace Konduit.Cardano

/-! ### Encodings -/

/-- How the parts of an output are written, other than the lovelace. -/
structure Parts where
  address : Address → Bytes
  assets : Multiasset UInt64 → Bytes
  datum : Datum → Bytes
  script : PlutusScript → Bytes

namespace Parts

variable (parts : Parts)

/-- A value in CBOR, as an integer where it holds no assets. -/
def value : PallasValue → Bytes
  | .coin lovelace => Cbor.uint lovelace
  | .multiasset lovelace assets => Cbor.array 2 ++ Cbor.uint lovelace ++ parts.assets assets

/-- A field of the map. -/
def field (key : UInt64) (contents : Bytes) : Bytes := Cbor.uint key ++ contents

/-- An output is a map; what is not there is left out. -/
def encode (output : TransactionOutput) : Bytes :=
  let fields := [some (field 0 (parts.address output.address)),
    some (field 1 (parts.value output.value)),
    output.datum.map fun datum => field 2 (parts.datum datum),
    output.script.map fun script => field 3 (parts.script script)].filterMap id
  Cbor.head 5 fields.length ++ fields.flatten

/-- The size of an output. -/
def size (output : TransactionOutput) : UInt64 := .ofNat (parts.encode output).length

end Parts

namespace Output

/-- The output with another quantity of lovelace. -/
def carrying (output : Output) (lovelace : UInt64) : Output :=
  { output with
    deferred := match output.deferred with
      | .minimum value => .minimum { value with lovelace := lovelace }
      | .explicit value => .explicit { value with lovelace := lovelace } }

section Least

variable (parts : Parts) (output : Output)

/-- The least value of an output whose lovelace takes five bytes. -/
def minimum : UInt64 := (output.carrying 65536).minAcceptableValue parts.size

/-- The output holds what it needs to. -/
def Accepted : Prop := output.minAcceptableValue parts.size ≤ output.value.lovelace

variable {parts} {output} {v w : UInt64}

lemma value_carrying : (output.carrying v).value = { output.value with lovelace := v } := by
  obtain ⟨address, deferred, datum, script⟩ := output
  cases deferred <;> rfl

@[simp]
lemma lovelace_carrying : (output.carrying v).value.lovelace = v := by
  rw [value_carrying]

/-- All that depends on the lovelace is the length of its own encoding. -/
lemma length_encode_carrying (v w : UInt64) :
    (parts.encode (output.carrying v).toPallas).length + (Cbor.uint w).length =
      (parts.encode (output.carrying w).toPallas).length + (Cbor.uint v).length := by
  have hvalue : (parts.value (output.carrying v).value.toPallas).length + (Cbor.uint w).length =
      (parts.value (output.carrying w).value.toPallas).length + (Cbor.uint v).length := by
    rw [value_carrying, value_carrying, Value.toPallas, Value.toPallas]
    cases intoMultiasset output.value.assets with
    | none => exact Nat.add_comm _ _
    | some assets =>
      simp only [Parts.value, List.length_append]
      omega
  have hfields : ∀ lovelace, (output.carrying lovelace).toPallas =
      ⟨output.address, (output.carrying lovelace).value.toPallas, output.datum, output.script⟩ :=
    fun _ => rfl
  rw [hfields, hfields]
  simp only [Parts.encode, Parts.field]
  cases output.datum <;> cases output.script <;> simp <;> omega

/-- What the code counts for a lovelace in fewer than five bytes. -/
def extraSize (lovelace : UInt64) : ℕ :=
  if lovelace.toNat < 24 then 4
  else if lovelace.toNat < 256 then 3
  else if lovelace.toNat < 65535 then 2
  else 0

lemma minAcceptableValue_eq :
    output.minAcceptableValue parts.size = 4310 *
      .ofNat ((parts.encode output.toPallas).length + 160 + extraSize output.value.lovelace) := by
  rw [UInt64.ofNat_add, UInt64.ofNat_add, minAcceptableValue, extraSize]
  simp only [UInt64.lt_iff_toNat_lt, apply_ite UInt64.ofNat]
  rfl

/-- Below `2 ^ 32`, five bytes are counted, other than for 65535. -/
lemma length_uint_add_extraSize (hv : v.toNat < 2 ^ 32) :
    (Cbor.uint v).length + extraSize v = if v = 65535 then 3 else 5 := by
  have hslip : v = 65535 ↔ v.toNat = 65535 := UInt64.toNat_inj.symm
  simp only [Cbor.length_uint, extraSize, hslip]
  split_ifs <;> omega

/-- The least value is that of a lovelace in five bytes, less two bytes for 65535. -/
lemma minAcceptableValue_carrying (hv : v.toNat < 2 ^ 32) :
    (output.carrying v).minAcceptableValue parts.size =
      minimum parts output - if v = 65535 then 8620 else 0 := by
  have hlength := @length_encode_carrying parts output v 65536
  have hfive : (Cbor.uint 65536).length = 5 := by decide
  have hextra := length_uint_add_extraSize hv
  rw [minimum, minAcceptableValue_eq, minAcceptableValue_eq, lovelace_carrying, lovelace_carrying,
    show extraSize 65536 = 0 by decide]
  split_ifs at hextra ⊢ with h
  · rw [show (parts.encode (output.carrying 65536).toPallas).length + 160 + 0 =
      (parts.encode (output.carrying v).toPallas).length + 160 + extraSize v + 2 by omega]
    rw [UInt64.ofNat_add _ 2, UInt64.mul_add]
    exact (UInt64.add_sub_cancel _ _).symm
  · rw [show (parts.encode (output.carrying v).toPallas).length + 160 + extraSize v =
      (parts.encode (output.carrying 65536).toPallas).length + 160 + 0 by omega]
    exact (UInt64.sub_zero _).symm

lemma minAcceptableValue_eq_iff (hv : v.toNat < 2 ^ 32) :
    (output.carrying v).minAcceptableValue parts.size = minimum parts output ↔ v ≠ 65535 := by
  rw [minAcceptableValue_carrying hv]
  split_ifs with h
  · refine iff_of_false (fun heq => ?_) (not_not_intro h)
    rw [UInt64.sub_eq_iff_eq_add, UInt64.left_eq_add] at heq
    exact absurd heq (by decide)
  · exact iff_of_true (UInt64.sub_zero _) h

/-- The least value is even. -/
lemma minAcceptableValue_ne : output.minAcceptableValue parts.size ≠ 65535 := by
  rw [minAcceptableValue_eq, ne_eq, ← UInt64.toNat_inj, UInt64.toNat_mul,
    show (4310 : UInt64).toNat = 4310 from rfl, show (65535 : UInt64).toNat = 65535 from rfl]
  omega

/-! ### Values to be the least -/

lemma setMinimumUtxoValue_carrying {value : Value UInt64} (h : output.deferred = .minimum value) :
    setMinimumUtxoValue parts.size (output.carrying v) =
      output.carrying ((output.carrying v).minAcceptableValue parts.size) := by
  rw [setMinimumUtxoValue]
  simp only [carrying, h]

lemma carrying_inj : output.carrying v = output.carrying w ↔ v = w := by
  refine ⟨fun h => ?_, fun h => h ▸ rfl⟩
  simpa using congrArg (fun output : Output => output.value.lovelace) h

/-- A value that is set to the least one stays, unless it was computed for 65535. -/
lemma setMinimumUtxoValue_eq_iff {value : Value UInt64} (h : output.deferred = .minimum value)
    (hv : v.toNat < 2 ^ 32)
    (hmin : ((output.carrying v).minAcceptableValue parts.size).toNat < 2 ^ 32) :
    setMinimumUtxoValue parts.size (setMinimumUtxoValue parts.size (output.carrying v)) =
      setMinimumUtxoValue parts.size (output.carrying v) ↔ v ≠ 65535 := by
  have hagain := (@minAcceptableValue_eq_iff parts output _ hmin).mpr minAcceptableValue_ne
  rw [setMinimumUtxoValue_carrying h, setMinimumUtxoValue_carrying h, carrying_inj, hagain,
    eq_comm, minAcceptableValue_eq_iff hv]

lemma accepted_carrying_iff (hv : v.toNat < 2 ^ 32) (hne : v ≠ 65535) :
    (output.carrying v).Accepted parts ↔ minimum parts output ≤ v := by
  rw [Accepted, (minAcceptableValue_eq_iff hv).mpr hne, lovelace_carrying]

/-- What is accepted is at least the price of the overhead, where nothing wraps around. -/
lemma Accepted.overhead_le (h : (output.carrying v).Accepted parts)
    (hlength : (parts.encode (output.carrying v).toPallas).length < 2 ^ 49) :
    689600 ≤ v.toNat := by
  have hextra : extraSize v ≤ 4 := by
    rw [extraSize]
    split_ifs <;> omega
  rw [Accepted, minAcceptableValue_eq, lovelace_carrying, UInt64.le_iff_toNat_le,
    UInt64.toNat_mul, UInt64.toNat_ofNat_of_lt' (by rw [UInt64.size]; omega),
    show (4310 : UInt64).toNat = 4310 from rfl, Nat.mod_eq_of_lt (by omega)] at h
  omega

/-- More lovelace is accepted where less is. -/
lemma Accepted.mono (h : (output.carrying v).Accepted parts) (hvw : v ≤ w) (hw : w.toNat < 2 ^ 32)
    (hne : v ≠ 65535 ∧ w ≠ 65535 ∨ (parts.encode (output.carrying v).toPallas).length < 2 ^ 49) :
    (output.carrying w).Accepted parts := by
  have hv : v.toNat < 2 ^ 32 := lt_of_le_of_lt (UInt64.le_iff_toNat_le.mp hvw) hw
  have hboth : v ≠ 65535 ∧ w ≠ 65535 := by
    refine hne.elim id fun hlength => ?_
    have hoverhead := h.overhead_le hlength
    have hle := UInt64.le_iff_toNat_le.mp hvw
    simp only [ne_eq, ← UInt64.toNat_inj, show (65535 : UInt64).toNat = 65535 from rfl]
    omega
  rw [accepted_carrying_iff hv hboth.1] at h
  exact (accepted_carrying_iff hw hboth.2).mpr (h.trans hvw)

/-- **The least value.**  Of all quantities of lovelace below `2 ^ 32`, an output needs the same to
hold each but 65535.  A value that is set to the least one stays there, unless it is computed for
65535; and more lovelace is accepted where less is, other than for this quantity in an output that
is too long for its least value to be a word. -/
theorem min_acceptable_value_iff (parts : Parts) (output : Output) :
    (∀ v, v.toNat < 2 ^ 32 →
      ((output.carrying v).minAcceptableValue parts.size = minimum parts output ↔ v ≠ 65535)) ∧
    (∀ value, output.deferred = .minimum value → ∀ v, v.toNat < 2 ^ 32 →
      ((output.carrying v).minAcceptableValue parts.size).toNat < 2 ^ 32 →
        (setMinimumUtxoValue parts.size (setMinimumUtxoValue parts.size (output.carrying v)) =
          setMinimumUtxoValue parts.size (output.carrying v) ↔ v ≠ 65535)) ∧
    ∀ v w, v ≤ w → w.toNat < 2 ^ 32 →
      v ≠ 65535 ∧ w ≠ 65535 ∨ (parts.encode (output.carrying v).toPallas).length < 2 ^ 49 →
        (output.carrying v).Accepted parts → (output.carrying w).Accepted parts :=
  ⟨fun _ hv => minAcceptableValue_eq_iff hv,
    fun _ hdeferred _ hv hmin => setMinimumUtxoValue_eq_iff hdeferred hv hmin,
    fun _ _ hvw hw hne h => h.mono hvw hw hne⟩

end Least

namespace Sample

/-- The parts of an output to the default address. -/
def parts : Parts where
  address _ := Cbor.bytes (0x01 :: List.replicate 56 0)
  assets _ := Cbor.head 5 0
  datum _ := Cbor.null
  script _ := Cbor.null

end Sample

example : (Output.new .default ⟨978370, ∅⟩).minAcceptableValue Sample.parts.size = 978370 := by
  decide +kernel

theorem not_min_acceptable_value :
    ¬∀ (parts : Parts) (output : Output) (v w : UInt64),
      v.toNat < 2 ^ 32 → w.toNat < 2 ^ 32 →
        (output.carrying v).minAcceptableValue parts.size =
          (output.carrying w).minAcceptableValue parts.size := by
  intro h
  have hslip := h Sample.parts (.new .default ⟨0, ∅⟩) 65535 65536 (by decide) (by decide)
  exact absurd hslip (by decide +kernel)

end Output

end Konduit.Cardano
