import Mathlib.Order.Lattice
import Mathlib.Tactic.NormNum

/-!
# 64-bit words

Machine arithmetic on `UInt64`: plain operators wrap, the saturating ones stop at the ends
of the range.
-/

namespace Lib.Word

/-- Words in their numeric order. -/
instance instLinearOrder : LinearOrder UInt64 :=
  { (inferInstance : LE UInt64), (inferInstance : LT UInt64) with
    le_refl := UInt64.le_refl
    le_trans := fun _ _ _ => UInt64.le_trans
    lt_iff_le_not_ge := fun a b => by
      simp only [UInt64.lt_iff_toNat_lt, UInt64.le_iff_toNat_le]
      omega
    le_antisymm := fun _ _ => UInt64.le_antisymm
    le_total := UInt64.le_total
    toDecidableLE := inferInstance
    toDecidableEq := inferInstance
    toDecidableLT := inferInstance }

/-- Subtraction that stops at zero. -/
def satSub (a b : UInt64) : UInt64 := if b ≤ a then a - b else 0

/-- The greatest word. -/
def maxValue : UInt64 := 18_446_744_073_709_551_615

/-- Addition that stops at the greatest word. -/
def satAdd (a b : UInt64) : UInt64 := if a.toNat + b.toNat < 2 ^ 64 then a + b else maxValue

/-- Only the greatest word wraps to its successor. -/
lemma toNat_succ {w : UInt64} (h : w ≠ maxValue) : (w + 1).toNat = w.toNat + 1 := by
  have hlt := w.toNat_lt
  have hne : w.toNat ≠ maxValue.toNat := fun heq => h (UInt64.toNat_inj.mp heq)
  have hmax : maxValue.toNat = 2 ^ 64 - 1 := rfl
  rw [UInt64.toNat_add, UInt64.toNat_one]
  omega

lemma lt_succ {w : UInt64} (h : w ≠ maxValue) : w < w + 1 := by
  rw [UInt64.lt_iff_toNat_lt, toNat_succ h]
  omega

lemma le_of_lt_succ {v w : UInt64} (hw : w ≠ maxValue) (h : v < w + 1) : v ≤ w := by
  have hlt := lt_succ hw
  rw [UInt64.lt_iff_toNat_lt, UInt64.toNat_add, UInt64.toNat_one] at h hlt
  have := w.toNat_lt
  rw [UInt64.le_iff_toNat_le]
  omega

/-- A wrapping sum. -/
def sum (ws : List UInt64) : UInt64 := ws.foldr (· + ·) 0

@[simp] lemma sum_nil : sum [] = 0 := rfl

@[simp] lemma sum_cons (w : UInt64) (ws : List UInt64) : sum (w :: ws) = w + sum ws := rfl

@[simp] lemma toNat_satSub (a b : UInt64) : (satSub a b).toNat = a.toNat - b.toNat := by
  rw [satSub]
  split_ifs with h
  · exact UInt64.toNat_sub_of_le a b h
  · rw [UInt64.le_iff_toNat_le] at h
    rw [UInt64.toNat_zero]
    omega

@[simp] lemma toNat_satAdd (a b : UInt64) :
    (satAdd a b).toNat = min (a.toNat + b.toNat) (2 ^ 64 - 1) := by
  have hmax : maxValue.toNat = 2 ^ 64 - 1 := rfl
  rw [satAdd]
  split_ifs with h
  · rw [UInt64.toNat_add, Nat.mod_eq_of_lt h]
    omega
  · rw [hmax]
    omega

lemma satSub_zero (a : UInt64) : satSub a 0 = a := by
  rw [← UInt64.toNat_inj, toNat_satSub, UInt64.toNat_zero, Nat.sub_zero]

lemma zero_satSub (a : UInt64) : satSub 0 a = 0 := by
  rw [← UInt64.toNat_inj, toNat_satSub, UInt64.toNat_zero, Nat.zero_sub]

lemma satSub_le (a b : UInt64) : satSub a b ≤ a := by
  rw [UInt64.le_iff_toNat_le, toNat_satSub]
  exact Nat.sub_le _ _

lemma sub_le {a b : UInt64} (h : b ≤ a) : a - b ≤ a := by
  rw [UInt64.le_iff_toNat_le, UInt64.toNat_sub_of_le a b h]
  exact Nat.sub_le _ _

lemma toNat_min (a b : UInt64) : (min a b).toNat = min a.toNat b.toNat := by
  rcases le_total a b with h | h
  · rw [min_eq_left h, min_eq_left (UInt64.le_iff_toNat_le.mp h)]
  · rw [min_eq_right h, min_eq_right (UInt64.le_iff_toNat_le.mp h)]

lemma toNat_max (a b : UInt64) : (max a b).toNat = max a.toNat b.toNat := by
  rcases le_total a b with h | h
  · rw [max_eq_right h, max_eq_right (UInt64.le_iff_toNat_le.mp h)]
  · rw [max_eq_left h, max_eq_left (UInt64.le_iff_toNat_le.mp h)]

/-- What is left after taking what there is. -/
lemma sub_min (a b : UInt64) : b - min a b = satSub b a := by
  rw [← UInt64.toNat_inj, UInt64.toNat_sub_of_le _ _ (min_le_right a b), toNat_satSub, toNat_min]
  omega

/-- A wrapping sum is the sum when that fits. -/
lemma toNat_sum (ws : List UInt64) : (sum ws).toNat = (ws.map UInt64.toNat).sum % 2 ^ 64 := by
  induction ws with
  | nil => rfl
  | cons w ws ih => simp [UInt64.toNat_add, ih]

lemma toNat_sum_map {α : Type} (f : α → UInt64) (l : List α) :
    (sum (l.map f)).toNat = (l.map fun a => (f a).toNat).sum % 2 ^ 64 := by
  rw [toNat_sum, List.map_map]
  rfl

/-- A wrapping sum does not depend on the order. -/
lemma sum_perm {ws ws' : List UInt64} (h : ws.Perm ws') : sum ws = sum ws' := by
  induction h with
  | nil => rfl
  | cons w _ ih => rw [sum_cons, sum_cons, ih]
  | swap v w ws =>
    simp only [sum_cons]
    rw [← UInt64.add_assoc, UInt64.add_comm w v, UInt64.add_assoc]
  | trans _ _ ih ih' => exact ih.trans ih'

end Lib.Word
