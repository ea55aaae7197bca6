import Mathlib.Data.List.Basic
import Mathlib.Tactic.Common

/-!
# Registers

A register of a state is a part of it that each step either leaves as it is or writes.  After
any steps it holds what the last one wrote that wrote it, or what it held at first when none
did (`Register.get_foldl_iff`).
-/

namespace Lib

/-- A part of a state, with what each step writes to it. -/
structure Register {σ ι : Type*} (step : σ → ι → σ) (β : Type*) where
  get : σ → β
  write : σ → ι → Option β
  get_step : ∀ s i, get (step s i) = (write s i).getD (get s)

namespace Register

variable {σ ι β : Type*} {step : σ → ι → σ} (r : Register step β)

/-- None of the steps writes the register. -/
def Untouched (s : σ) : List ι → Prop
  | [] => True
  | i :: is => r.write s i = none ∧ Untouched (step s i) is

/-- Of the steps the last one that writes the register writes this. -/
def WrittenLast (s : σ) (is : List ι) (v : β) : Prop :=
  ∃ before i after, is = before ++ i :: after ∧ r.write (before.foldl step s) i = some v ∧
    r.Untouched (step (before.foldl step s) i) after

variable {r} {s : σ} {is : List ι} {v : β}

lemma get_foldl_of_untouched (h : r.Untouched s is) : r.get (is.foldl step s) = r.get s := by
  induction is generalizing s with
  | nil => rfl
  | cons i is ih => rw [List.foldl_cons, ih h.2, r.get_step, h.1, Option.getD_none]

lemma get_foldl_of_writtenLast (h : r.WrittenLast s is v) : r.get (is.foldl step s) = v := by
  obtain ⟨before, i, after, rfl, hwrite, huntouched⟩ := h
  rw [List.foldl_append, List.foldl_cons, get_foldl_of_untouched huntouched, r.get_step, hwrite,
    Option.getD_some]

variable (r s is) in
/-- There is a last step that writes, or none. -/
lemma untouched_or_writtenLast : r.Untouched s is ∨ ∃ v, r.WrittenLast s is v := by
  induction is generalizing s with
  | nil => exact Or.inl trivial
  | cons i is ih =>
    rcases ih (step s i) with huntouched | ⟨v, before, j, after, rfl, hwrite, hafter⟩
    · cases hwrite : r.write s i with
      | none => exact Or.inl ⟨hwrite, huntouched⟩
      | some v => exact Or.inr ⟨v, [], i, is, rfl, hwrite, huntouched⟩
    · exact Or.inr ⟨v, i :: before, j, after, rfl, hwrite, hafter⟩

/-- A register holds what was written last, or what it held at first. -/
theorem get_foldl_iff :
    r.get (is.foldl step s) = v ↔
      r.WrittenLast s is v ∨ r.Untouched s is ∧ r.get s = v := by
  constructor
  · rintro rfl
    rcases untouched_or_writtenLast r s is with huntouched | ⟨v, hwritten⟩
    · exact Or.inr ⟨huntouched, (get_foldl_of_untouched huntouched).symm⟩
    · rw [get_foldl_of_writtenLast hwritten]
      exact Or.inl hwritten
  · rintro (hwritten | ⟨huntouched, rfl⟩)
    · exact get_foldl_of_writtenLast hwritten
    · exact get_foldl_of_untouched huntouched

end Register

end Lib
