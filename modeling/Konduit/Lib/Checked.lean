import Konduit.Lib.Word

/-!
# Checked arithmetic

Machine arithmetic that has a result just when the exact one fits in a word.  A result that it
has is the one of the wrapping operators.
-/

namespace Lib.Word

/-- The sum, where it is a word. -/
def checkedAdd (a b : UInt64) : Option UInt64 :=
  if a.toNat + b.toNat < 2 ^ 64 then some (a + b) else none

/-- The difference, where it is not negative. -/
def checkedSub (a b : UInt64) : Option UInt64 := if b ≤ a then some (a - b) else none

/-- The sum, taken from the left; what has been summed up on the way is to fit too. -/
def checkedSum (ws : List UInt64) : Option UInt64 := ws.foldlM checkedAdd 0

variable {a b c : UInt64} {ws : List UInt64}

lemma checkedAdd_eq_some_iff :
    checkedAdd a b = some c ↔ a.toNat + b.toNat < 2 ^ 64 ∧ a + b = c := by
  rw [checkedAdd, Option.ite_none_right_eq_some, Option.some.injEq]

lemma checkedAdd_of_lt (h : a.toNat + b.toNat < 2 ^ 64) : checkedAdd a b = some (a + b) := if_pos h

lemma checkedSub_of_le (h : b ≤ a) : checkedSub a b = some (a - b) := if_pos h

/-- An addition that is defined is exact. -/
lemma toNat_of_checkedAdd (h : checkedAdd a b = some c) : c.toNat = a.toNat + b.toNat := by
  obtain ⟨hfits, rfl⟩ := checkedAdd_eq_some_iff.mp h
  rw [UInt64.toNat_add, Nat.mod_eq_of_lt hfits]

lemma foldlM_checkedAdd_eq_some_iff :
    ws.foldlM checkedAdd a = some c ↔
      a.toNat + (ws.map UInt64.toNat).sum < 2 ^ 64 ∧ a + sum ws = c := by
  induction ws generalizing a with
  | nil => simp [a.toNat_lt]
  | cons w ws ih =>
    rw [List.foldlM_cons, Option.bind_eq_bind, Option.bind_eq_some_iff]
    constructor
    · rintro ⟨b, hb, hrest⟩
      obtain ⟨hfits, hsum⟩ := ih.mp hrest
      rw [toNat_of_checkedAdd hb] at hfits
      obtain ⟨-, rfl⟩ := checkedAdd_eq_some_iff.mp hb
      refine ⟨?_, ?_⟩
      · rw [List.map_cons, List.sum_cons]
        omega
      · rw [sum_cons, ← UInt64.add_assoc, hsum]
    · rintro ⟨hfits, hsum⟩
      rw [List.map_cons, List.sum_cons] at hfits
      have hadd : checkedAdd a w = some (a + w) := checkedAdd_of_lt (by omega)
      refine ⟨a + w, hadd, ih.mpr ⟨?_, ?_⟩⟩
      · rw [toNat_of_checkedAdd hadd]
        omega
      · rw [UInt64.add_assoc, ← sum_cons, hsum]

/-- Nothing wraps on the way when the exact sum fits. -/
theorem checkedSum_eq_some_iff :
    checkedSum ws = some c ↔ (ws.map UInt64.toNat).sum < 2 ^ 64 ∧ sum ws = c := by
  rw [checkedSum, foldlM_checkedAdd_eq_some_iff, UInt64.toNat_zero, zero_add, UInt64.zero_add]

lemma checkedSum_map_eq_some_iff {α : Type} {f : α → UInt64} {l : List α} :
    checkedSum (l.map f) = some c ↔
      (l.map fun a => (f a).toNat).sum < 2 ^ 64 ∧ sum (l.map f) = c := by
  rw [checkedSum_eq_some_iff, List.map_map]
  rfl

/-- A sum on top of something fits when both fit together. -/
lemma checkedAdd_checkedSum_eq_some_iff {α : Type} {f : α → UInt64} {l : List α} :
    ((checkedSum (l.map f)).bind fun s => checkedAdd a s) = some c ↔
      a.toNat + (l.map fun x => (f x).toNat).sum < 2 ^ 64 ∧ a + sum (l.map f) = c := by
  rw [Option.bind_eq_some_iff]
  constructor
  · rintro ⟨s, hsum, hadd⟩
    obtain ⟨hfits, rfl⟩ := checkedSum_map_eq_some_iff.mp hsum
    obtain ⟨hadds, rfl⟩ := checkedAdd_eq_some_iff.mp hadd
    rw [toNat_sum_map, Nat.mod_eq_of_lt hfits] at hadds
    exact ⟨hadds, rfl⟩
  · rintro ⟨hfits, rfl⟩
    have hsum : (l.map fun x => (f x).toNat).sum < 2 ^ 64 := (Nat.le_add_left _ _).trans_lt hfits
    refine ⟨_, checkedSum_map_eq_some_iff.mpr ⟨hsum, rfl⟩, checkedAdd_of_lt ?_⟩
    rw [toNat_sum_map, Nat.mod_eq_of_lt hsum]
    exact hfits

end Lib.Word
