import Mathlib.Algebra.BigOperators.Group.Finset.Basic
import Mathlib.Algebra.Order.BigOperators.Group.Finset

/-!
# Exposures

What a party stands to pay: a base, and the weights of those elements that are open.  One
exposure is below another when it is so for all weights of all finite sets; that is, when its
base is below and it leaves nothing open that the other closes (`Exposure.le_iff`).
-/

namespace Lib

variable {α : Type*}

/-- A base amount, and the items that are open beyond it. -/
@[ext] structure Exposure (α : Type*) where
  base : ℕ
  isOpen : α → Bool

namespace Exposure

variable {a b : Exposure α}

/-- What the base and the open items among these come to. -/
def total (self : Exposure α) (s : Finset α) (weight : α → ℕ) : ℕ :=
  self.base + ∑ i ∈ s.filter fun i => self.isOpen i = true, weight i

@[simp] lemma total_empty (self : Exposure α) (weight : α → ℕ) :
    self.total ∅ weight = self.base := by
  simp [total]

lemma total_singleton (self : Exposure α) (i : α) (weight : α → ℕ) :
    self.total {i} weight = self.base + if self.isOpen i = true then weight i else 0 := by
  rw [total, Finset.sum_filter, Finset.sum_singleton]

instance : Preorder (Exposure α) where
  le a b := ∀ s weight, a.total s weight ≤ b.total s weight
  le_refl _ _ _ := le_rfl
  le_trans _ _ _ h h' s weight := (h s weight).trans (h' s weight)

/-- What is not below exposes more for some set. -/
lemma not_le_iff : ¬a ≤ b ↔ ∃ s weight, b.total s weight < a.total s weight := by
  show ¬(∀ s weight, a.total s weight ≤ b.total s weight) ↔ _
  push Not
  rfl

theorem le_iff : a ≤ b ↔ a.base ≤ b.base ∧ ∀ i, a.isOpen i = true → b.isOpen i = true := by
  constructor
  · intro h
    refine ⟨by simpa using h ∅ 0, fun i hi => ?_⟩
    by_contra hclosed
    -- one element that weighs more than the other's base
    have hle := h {i} fun _ => b.base + 1
    rw [total_singleton, total_singleton, if_pos hi, if_neg hclosed] at hle
    omega
  · rintro ⟨hbase, hopen⟩ s weight
    exact Nat.add_le_add hbase
      (Finset.sum_le_sum_of_subset (Finset.monotone_filter_right s fun i _ => hopen i))

instance : PartialOrder (Exposure α) where
  le_antisymm a b hab hba := by
    rw [le_iff] at hab hba
    ext i
    · exact le_antisymm hab.1 hba.1
    · exact Bool.eq_iff_iff.mpr ⟨hab.2 i, hba.2 i⟩

end Exposure

end Lib
