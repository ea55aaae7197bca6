import Mathlib.Algebra.BigOperators.Group.List.Basic
import Mathlib.Data.Int.ModEq
import Mathlib.Tactic.Common

/-!
# Signed 64-bit words

Differences of words, taken in signed words and added up there, wrap as a whole: the total is the
exact one wherever that fits (`toInt_sum_sub`), whatever happens on the way.
-/

namespace Lib.Signed

/-- A wrapping sum. -/
def sum (ws : List Int64) : Int64 := ws.foldr (· + ·) 0

/-- Take a signed word from a word, and stop at the ends of the range. -/
def satSub (a : UInt64) (b : Int64) : UInt64 :=
  .ofNat (min ((a.toNat : ℤ) - b.toInt).toNat (2 ^ 64 - 1))

lemma toNat_satSub (a : UInt64) (b : Int64) :
    (satSub a b).toNat = min ((a.toNat : ℤ) - b.toInt).toNat (2 ^ 64 - 1) := by
  rw [satSub, UInt64.toNat_ofNat', Nat.mod_eq_of_lt]
  omega

lemma toInt_toInt64 (w : UInt64) : w.toInt64.toInt = (w.toNat : ℤ).bmod (2 ^ 64) := by
  rw [← Int64.toInt_toBitVec, UInt64.toBitVec_toInt64, BitVec.toInt_eq_toNat_bmod,
    UInt64.toNat_toBitVec]

lemma toInt_sub_toInt64 (a b : UInt64) :
    (a.toInt64 - b.toInt64).toInt = ((a.toNat : ℤ) - b.toNat).bmod (2 ^ 64) := by
  rw [Int64.toInt_sub, toInt_toInt64, toInt_toInt64, Int.sub_bmod_bmod, Int.bmod_sub_bmod]

/-- Signed differences of words add up to the exact total, up to wrapping once. -/
theorem toInt_sum_sub {α : Type} (f g : α → UInt64) (l : List α) :
    (sum (l.map fun a => (f a).toInt64 - (g a).toInt64)).toInt =
      ((l.map fun a => ((f a).toNat : ℤ) - (g a).toNat).sum).bmod (2 ^ 64) := by
  induction l with
  | nil => rfl
  | cons a l ih =>
    rw [List.map_cons, List.map_cons, List.sum_cons, sum, List.foldr_cons, ← sum, Int64.toInt_add,
      ih, toInt_sub_toInt64, Int.add_bmod_bmod, Int.bmod_add_bmod]

/-- What is the same up to the width wraps to the same. -/
lemma bmod_eq_of_modEq {a b : ℤ} {n : ℕ} (h : a ≡ b [ZMOD n]) : a.bmod n = b.bmod n := by
  rw [← Int.emod_bmod, h, Int.emod_bmod]

end Lib.Signed
