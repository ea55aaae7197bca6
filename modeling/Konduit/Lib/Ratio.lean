import Mathlib.Algebra.BigOperators.Fin
import Mathlib.Algebra.Order.BigOperators.Ring.Finset
import Mathlib.Algebra.Order.Floor.Semiring
import Mathlib.Data.Rat.Floor
import Mathlib.Data.Rat.Lemmas
import Mathlib.Tactic.FieldSimp
import Mathlib.Tactic.Linarith
import Mathlib.Tactic.NormNum
import Mathlib.Tactic.Positivity
import Mathlib.Tactic.Ring

/-!
# Fractions of machine words

A fraction in lowest terms whose numerator and denominator are words of 64 bits.  Products are
reduced before they are multiplied out, so they are made wherever they fit; sums are made over the
least common denominator, and are refused when they do not fit there, even if they would after
they are reduced (`Aligned`).
-/

namespace Lib

/-- The numerator and the denominator are words. -/
structure Holds (q : ℚ) : Prop where
  nonneg : 0 ≤ q
  num_lt : q.num < 2 ^ 64
  den_lt : q.den < 2 ^ 64

/-- The sum has a word for a numerator, over the least common denominator, and that is a word. -/
structure Aligned (x y : ℚ) : Prop where
  lcm_lt : Nat.lcm x.den y.den < 2 ^ 64
  sum_lt : (x + y) * (Nat.lcm x.den y.den : ℕ) < 2 ^ 64

/-- A fraction of words in lowest terms. -/
abbrev Ratio := {q : ℚ // Holds q}

instance (q : ℚ) : Decidable (Holds q) :=
  decidable_of_iff (0 ≤ q ∧ q.num < 2 ^ 64 ∧ q.den < 2 ^ 64)
    ⟨fun h => ⟨h.1, h.2.1, h.2.2⟩, fun h => ⟨h.nonneg, h.num_lt, h.den_lt⟩⟩

instance (x y : ℚ) : Decidable (Aligned x y) :=
  decidable_of_iff (Nat.lcm x.den y.den < 2 ^ 64 ∧ (x + y) * (Nat.lcm x.den y.den : ℕ) < 2 ^ 64)
    ⟨fun h => ⟨h.1, h.2⟩, fun h => ⟨h.lcm_lt, h.sum_lt⟩⟩

section Lemmas

variable {x y : ℚ} {n : ℕ}

/-- What is a word over a multiple of the denominator is one in lowest terms. -/
lemma Holds.of_den_dvd (hx : 0 ≤ x) (hn : 0 < n) (hlt : n < 2 ^ 64) (hdvd : x.den ∣ n)
    (hnum : x * n < 2 ^ 64) : Holds x := by
  have hle : (x.den : ℚ) ≤ n := by exact_mod_cast Nat.le_of_dvd hn hdvd
  refine ⟨hx, ?_, (Nat.le_of_dvd hn hdvd).trans_lt hlt⟩
  have hcast : (x.num : ℚ) < 2 ^ 64 := by
    rw [← Rat.mul_den_eq_num]
    exact (mul_le_mul_of_nonneg_left hle hx).trans_lt hnum
  exact_mod_cast hcast

lemma Aligned.of_den_dvd (hxy : 0 ≤ x + y) (hn : 0 < n) (hlt : n < 2 ^ 64) (hx : x.den ∣ n)
    (hy : y.den ∣ n) (hnum : (x + y) * n < 2 ^ 64) : Aligned x y := by
  have hlcm : Nat.lcm x.den y.den ≤ n := Nat.le_of_dvd hn (Nat.lcm_dvd hx hy)
  have hle : ((Nat.lcm x.den y.den : ℕ) : ℚ) ≤ n := by exact_mod_cast hlcm
  exact ⟨hlcm.trans_lt hlt, (mul_le_mul_of_nonneg_left hle hxy).trans_lt hnum⟩

/-- A sum that is made over the least common denominator fits in lowest terms. -/
lemma Holds.add (hx : Holds x) (hy : Holds y) (h : Aligned x y) : Holds (x + y) :=
  .of_den_dvd (add_nonneg hx.nonneg hy.nonneg) (Nat.lcm_pos x.den_pos y.den_pos) h.lcm_lt
    (Rat.add_den_dvd_lcm x y) h.sum_lt

lemma den_div_dvd (a b : ℕ) : ((a : ℚ) / b).den ∣ b := by
  have hz : ((((a : ℚ) / b).den : ℕ) : ℤ) ∣ (b : ℤ) := by
    rw [← Int.cast_natCast a, ← Int.cast_natCast b, Rat.intCast_div_eq_divInt]
    exact Rat.den_dvd a b
  exact_mod_cast hz

lemma Holds.div {a : ℕ} (hn : 0 < n) (hlt : n < 2 ^ 64) (ha : a < 2 ^ 64) :
    Holds ((a : ℚ) / n) := by
  refine .of_den_dvd (by positivity) hn hlt (den_div_dvd a n) ?_
  rw [div_mul_cancel₀ _ (by exact_mod_cast hn.ne')]
  exact_mod_cast ha

lemma Aligned.div {a b : ℕ} (hn : 0 < n) (hlt : n < 2 ^ 64) (hab : a + b < 2 ^ 64) :
    Aligned ((a : ℚ) / n) ((b : ℚ) / n) := by
  refine .of_den_dvd (by positivity) hn hlt (den_div_dvd a n) (den_div_dvd b n) ?_
  rw [← add_div, div_mul_cancel₀ _ (by exact_mod_cast hn.ne')]
  exact_mod_cast hab

lemma Holds.natCast (h : n < 2 ^ 64) : Holds n :=
  ⟨Nat.cast_nonneg n, by rw [Rat.num_natCast]; exact_mod_cast h, by simp [Rat.den_natCast]⟩

/-- The floor of a fraction of words is a word. -/
lemma Holds.floor_lt (h : Holds x) : ⌊x⌋₊ < 2 ^ 64 := by
  rw [Nat.floor_lt h.nonneg]
  have hnum : (x.num : ℚ) < 2 ^ 64 := by exact_mod_cast h.num_lt
  have hden : (1 : ℚ) ≤ x.den := by exact_mod_cast x.den_pos
  rw [← Rat.mul_den_eq_num] at hnum
  exact_mod_cast (le_mul_of_one_le_right h.nonneg hden).trans_lt hnum

end Lemmas

namespace Ratio

/-- Nothing. -/
def zero : Ratio := ⟨0, by decide⟩

/-- A word, over one. -/
def ofWord (n : UInt64) : Ratio := ⟨n.toNat, .natCast n.toNat_lt⟩

/-- Round down. -/
def floor (a : Ratio) : UInt64 := .ofNat ⌊a.1⌋₊

lemma toNat_floor (a : Ratio) : a.floor.toNat = ⌊a.1⌋₊ :=
  UInt64.toNat_ofNat_of_lt' a.2.floor_lt

/-- Arithmetic that refuses what overflows. -/
structure Arithmetic where
  mul : Ratio → Ratio → Option Ratio
  mulWord : Ratio → UInt64 → Option Ratio
  add : Ratio → Ratio → Option Ratio
  mul_eq_some_iff : ∀ {a b c}, mul a b = some c ↔ c.1 = a.1 * b.1
  mulWord_eq_some_iff : ∀ {a n c}, mulWord a n = some c ↔ c.1 = a.1 * n.toNat
  add_eq_some_iff : ∀ {a b c}, add a b = some c ↔ c.1 = a.1 + b.1 ∧ Aligned a.1 b.1

/-- The fraction, where its numerator and denominator are words. -/
def ofRat (q : ℚ) : Option Ratio := if h : Holds q then some ⟨q, h⟩ else none

lemma ofRat_eq_some_iff {q : ℚ} {c : Ratio} : ofRat q = some c ↔ c.1 = q := by
  rw [ofRat]
  split_ifs with h
  · rw [Option.some_inj, Subtype.ext_iff, eq_comm]
  · refine iff_of_false (by simp) ?_
    rintro rfl
    exact h c.2

/-- There is such arithmetic. -/
def arithmetic : Arithmetic where
  mul a b := ofRat (a.1 * b.1)
  mulWord a n := ofRat (a.1 * n.toNat)
  add a b := if Aligned a.1 b.1 then ofRat (a.1 + b.1) else none
  mul_eq_some_iff := ofRat_eq_some_iff
  mulWord_eq_some_iff := ofRat_eq_some_iff
  add_eq_some_iff := by
    intro a b c
    split_ifs with h
    · rw [ofRat_eq_some_iff, and_iff_left h]
    · simp [h]

end Ratio

end Lib
