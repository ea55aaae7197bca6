import Mathlib.Order.Lattice
import Konduit.Lib.Cbor
import Konduit.Lib.Word

/-!
# Durations

A duration in memory counts nanoseconds in the range of 64-bit seconds.  On the wire and
on chain it is an integer number of milliseconds in 64 bits; the conversion drops what is
below a millisecond, and what is above 64 bits.
-/

open Lib

namespace Konduit.Data

/-- A `std::time::Duration`. -/
structure Duration where
  nanos : ℕ
  lt : nanos < 2 ^ 64 * 10 ^ 9
deriving DecidableEq

namespace Duration

@[ext] lemma ext {a b : Duration} (h : a.nanos = b.nanos) : a = b := by
  cases a
  cases b
  simpa using h

instance : LinearOrder Duration := LinearOrder.lift' nanos fun _ _ => ext

/-- No time. -/
def zero : Duration := ⟨0, by norm_num⟩

/-- Whole seconds. -/
def fromSecs (secs : UInt64) : Duration :=
  ⟨secs.toNat * 10 ^ 9, Nat.mul_lt_mul_of_pos_right secs.toNat_lt (by norm_num)⟩

/-- Whole milliseconds. -/
def fromMillis (millis : UInt64) : Duration :=
  ⟨millis.toNat * 10 ^ 6, by have := millis.toNat_lt; omega⟩

/-- The whole seconds. -/
def asSecs (d : Duration) : ℕ := d.nanos / 10 ^ 9

/-- The nanoseconds below a second. -/
def subsecNanos (d : Duration) : ℕ := d.nanos % 10 ^ 9

/-- The whole milliseconds, in 128 bits. -/
def asMillis (d : Duration) : ℕ := d.nanos / 10 ^ 6

/-- The difference, and nothing where it would be negative. -/
def saturatingSub (a b : Duration) : Duration := ⟨a.nanos - b.nanos, by have := a.lt; omega⟩

/-- The cast to `u64`, in milliseconds. -/
def toU64 (d : Duration) : UInt64 := UInt64.ofNat d.asMillis

/-- A duration that the conversion to milliseconds keeps: a whole number of them, in 64
bits. -/
def Canonical (d : Duration) : Prop := fromMillis d.toU64 = d

instance (d : Duration) : Decidable d.Canonical := inferInstanceAs (Decidable (_ = _))

@[simp] lemma toU64_fromMillis (millis : UInt64) : (fromMillis millis).toU64 = millis := by
  simp [toU64, asMillis, fromMillis]

@[simp] lemma asMillis_fromMillis (millis : UInt64) :
    (fromMillis millis).asMillis = millis.toNat := by
  simp [asMillis, fromMillis]

/-- The times in milliseconds that are no later than a duration. -/
lemma le_asMillis_iff {d : Duration} {t : ℤ} : t * 10 ^ 6 ≤ d.nanos ↔ t ≤ d.asMillis := by
  rw [asMillis]
  omega

lemma canonical_fromMillis (millis : UInt64) : (fromMillis millis).Canonical := by
  simp [Canonical]

lemma asMillis_lt_of_canonical {d : Duration} (h : d.Canonical) : d.asMillis < 2 ^ 64 := by
  rw [← h, asMillis_fromMillis]
  exact UInt64.toNat_lt _

lemma nanos_of_canonical {d : Duration} (h : d.Canonical) : d.nanos = d.asMillis * 10 ^ 6 := by
  rw [← h, asMillis_fromMillis]
  rfl

lemma toNat_toU64 (d : Duration) : d.toU64.toNat = d.asMillis % 2 ^ 64 := by
  simp [toU64]

/-! ### On the wire -/

/-- The milliseconds in CBOR. -/
def encode (d : Duration) : Bytes := Cbor.uint d.toU64

/-- A duration in CBOR, from its milliseconds. -/
def decode (b : Bytes) : Option (Duration × Bytes) := do
  let (millis, b) ← Cbor.readUInt b
  return (fromMillis millis, b)

@[simp] lemma decode_encode (d : Duration) (b : Bytes) :
    decode (d.encode ++ b) = some (fromMillis d.toU64, b) := by
  simp [decode, encode]

/-- What is read off the wire is canonical. -/
lemma canonical_of_decode {b b' : Bytes} {d : Duration} (h : decode b = some (d, b')) :
    d.Canonical := by
  simp only [decode, Option.bind_eq_bind, Option.bind_eq_some_iff, Option.pure_def,
    Option.some.injEq, Prod.mk.injEq] at h
  obtain ⟨r, -, rfl, -⟩ := h
  exact canonical_fromMillis _

end Duration

end Konduit.Data
