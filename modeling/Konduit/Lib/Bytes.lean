import Mathlib.Data.List.Basic
import Mathlib.Tactic.Common

/-!
# Byte strings
-/

namespace Lib

/-- A byte string. -/
abbrev Bytes := List UInt8

namespace Bytes

/-- Cut a byte string into slices of a length, the last of which may be shorter. -/
def slices (n : ℕ) (b : Bytes) : List Bytes :=
  if n = 0 ∨ b = [] then [] else b.take n :: slices n (b.drop n)
termination_by b.length
decreasing_by
  have := List.length_pos_iff.mpr (show b ≠ [] by tauto)
  rw [List.length_drop]
  omega

lemma slices_nil (n : ℕ) : slices n [] = [] := by rw [slices, if_pos (Or.inr rfl)]

lemma slices_of_ne_nil {n : ℕ} {b : Bytes} (hn : n ≠ 0) (hb : b ≠ []) :
    slices n b = b.take n :: slices n (b.drop n) := by
  rw [slices, if_neg (by tauto)]

lemma flatten_slices {n : ℕ} (hn : n ≠ 0) (b : Bytes) : (slices n b).flatten = b := by
  induction b using slices.induct n with
  | case1 b h =>
    obtain rfl : b = [] := by tauto
    simp [slices_nil]
  | case2 b h ih =>
    rw [slices_of_ne_nil hn (by tauto), List.flatten_cons, ih, List.take_append_drop]

lemma length_of_mem_slices {n : ℕ} {b c : Bytes} (h : c ∈ slices n b) : c.length ≤ n := by
  induction b using slices.induct n with
  | case1 b hb => simp [slices, hb] at h
  | case2 b hb ih =>
    rw [slices, if_neg hb] at h
    rcases List.mem_cons.mp h with rfl | h
    · exact List.length_take_le _ _
    · exact ih h

end Bytes

/-- A byte string of a fixed length. -/
abbrev BytesN (n : ℕ) := {b : Bytes // b.length = n}

namespace BytesN

/-- Read a byte string as one of a fixed length. -/
def ofBytes (n : ℕ) (b : Bytes) : Option (BytesN n) :=
  if h : b.length = n then some ⟨b, h⟩ else none

/-- The byte string that repeats one byte. -/
def fill (n : ℕ) (x : UInt8) : BytesN n := ⟨List.replicate n x, by simp⟩

@[simp] lemma ofBytes_val {n : ℕ} (b : BytesN n) : ofBytes n b.1 = some b := by
  simp [ofBytes, b.2]

lemma val_of_ofBytes {n : ℕ} {b : Bytes} {b' : BytesN n} (h : ofBytes n b = some b') :
    b'.1 = b := by
  rw [ofBytes] at h
  split_ifs at h
  rw [← Option.some.inj h]

/-- Byte strings are in lexicographic order. -/
instance {n : ℕ} : Ord (BytesN n) := ⟨compareOn Subtype.val⟩

instance {n : ℕ} : Std.TransOrd (BytesN n) :=
  inferInstanceAs (Std.TransCmp (compareOn (Subtype.val : BytesN n → Bytes)))

instance {n : ℕ} : Std.LawfulEqOrd (BytesN n) where
  eq_of_compare h := Subtype.ext (@Std.LawfulEqCmp.eq_of_compare _ compare _ _ _ h)

end BytesN

end Lib
