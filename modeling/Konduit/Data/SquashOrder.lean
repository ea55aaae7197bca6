import Konduit.Data.SquashBody
import Konduit.Lib.Exposure

/-!
# The order of squash bodies

A body is no riskier than another when it claims no more and excludes nothing that the other
squashes.  The comparison of the code is the order of exposures: of what a channel may come to
pay, the amount of the squash and all cheques that it does not squash (`squashOrder`).
-/

open Lib

namespace Konduit.Data

namespace SquashBody

/-- It claims no more, has come as far, and excludes nothing that the other squashes. -/
def noRiskierThan (a b : SquashBody) : Bool :=
  a.amount ≤ b.amount && a.index ≥ b.index &&
    (a.exclude.items.filter (· ≤ b.index)).all b.exclude.items.contains

/-- The comparison of squashes, by which of them risks no more. -/
def partialCmp (self other : SquashBody) : Option Ordering :=
  match noRiskierThan self other, noRiskierThan other self with
  | true, true => some .eq
  | true, false => some .lt
  | false, true => some .gt
  | false, false => none

/-- The amount, and the cheques that are not squashed. -/
def exposure (self : SquashBody) : Exposure UInt64 :=
  ⟨self.amount.toNat, fun i => !self.isIndexSquashed i⟩

variable {a b c : SquashBody}

lemma exposure_le_iff (ha : a.WellFormed) (hb : b.WellFormed) :
    a.exposure ≤ b.exposure ↔ a.amount ≤ b.amount ∧ ∀ i, b.Squashed i → a.Squashed i := by
  simp only [Exposure.le_iff, exposure, Bool.not_eq_true', ← Bool.not_eq_true,
    isIndexSquashed_iff ha, isIndexSquashed_iff hb, not_imp_not, UInt64.le_iff_toNat_le]

lemma noRiskierThan_iff (ha : a.WellFormed) (hb : b.WellFormed) :
    noRiskierThan a b = true ↔ a.exposure ≤ b.exposure := by
  rw [exposure_le_iff ha hb, squashed_mono_iff hb]
  simp only [noRiskierThan, Bool.and_eq_true, decide_eq_true_eq, ge_iff_le, List.all_eq_true,
    List.mem_filter, List.contains_iff_mem, and_imp, and_assoc]

/-- A well-formed body is determined by what it exposes. -/
lemma eq_of_exposure (ha : a.WellFormed) (hb : b.WellFormed) (h : a.exposure = b.exposure) :
    a = b := by
  obtain ⟨hamount, hsquashed⟩ := (exposure_le_iff ha hb).mp h.le
  obtain ⟨hamount', hsquashed'⟩ := (exposure_le_iff hb ha).mp h.ge
  exact ha.ext hb (le_antisymm hamount hamount') fun i => ⟨hsquashed' i, hsquashed i⟩

/-- Less or equal. -/
def Below (a b : SquashBody) : Prop := partialCmp a b = some .lt ∨ partialCmp a b = some .eq

instance (a b : SquashBody) : Decidable (Below a b) := inferInstanceAs (Decidable (_ ∨ _))

lemma below_iff (ha : a.WellFormed) (hb : b.WellFormed) : Below a b ↔ a.exposure ≤ b.exposure := by
  rw [← noRiskierThan_iff ha hb, Below, partialCmp]
  cases noRiskierThan a b <;> cases noRiskierThan b a <;> simp

lemma partialCmp_eq_eq_iff (ha : a.WellFormed) (hb : b.WellFormed) :
    partialCmp a b = some .eq ↔ a = b := by
  have hiff : partialCmp a b = some .eq ↔ noRiskierThan a b = true ∧ noRiskierThan b a = true := by
    rw [partialCmp]
    cases noRiskierThan a b <;> cases noRiskierThan b a <;> simp
  rw [hiff, noRiskierThan_iff ha hb, noRiskierThan_iff hb ha, ← le_antisymm_iff]
  exact ⟨eq_of_exposure ha hb, fun h => h ▸ rfl⟩

lemma partialCmp_eq_none_iff (ha : a.WellFormed) (hb : b.WellFormed) :
    partialCmp a b = none ↔ ¬a.exposure ≤ b.exposure ∧ ¬b.exposure ≤ a.exposure := by
  rw [← noRiskierThan_iff ha hb, ← noRiskierThan_iff hb ha, partialCmp]
  cases noRiskierThan a b <;> cases noRiskierThan b a <;> simp

/-- **The order of squashes.**  Less or equal is less or equal exposure to every finite set of
cheques, so it is reflexive and transitive; equal is the same body; and two bodies are not
comparable just when each exposes more to some cheques. -/
theorem squashOrder (ha : a.WellFormed) (hb : b.WellFormed) (hc : c.WellFormed) :
    (Below a b ↔
      ∀ cheques amount, a.exposure.total cheques amount ≤ b.exposure.total cheques amount) ∧
    Below a a ∧ (Below a b → Below b c → Below a c) ∧ (partialCmp a b = some .eq ↔ a = b) ∧
    (partialCmp a b = none ↔
      (∃ cheques amount, b.exposure.total cheques amount < a.exposure.total cheques amount) ∧
      ∃ cheques amount, a.exposure.total cheques amount < b.exposure.total cheques amount) := by
  refine ⟨below_iff ha hb, (below_iff ha ha).mpr le_rfl, ?_, partialCmp_eq_eq_iff ha hb, ?_⟩
  · rw [below_iff ha hb, below_iff hb hc, below_iff ha hc]
    exact le_trans
  · rw [partialCmp_eq_none_iff ha hb, Exposure.not_le_iff, Exposure.not_le_iff]

/-- A body that squashes five cheques, one that squashes three of these, and the empty one. -/
theorem squashOrder_of_sample :
    (Below ⟨3, 5, .empty⟩ ⟨3, 4, ⟨[2]⟩⟩ ↔ ∀ cheques amount,
      (⟨3, 5, .empty⟩ : SquashBody).exposure.total cheques amount ≤
        (⟨3, 4, ⟨[2]⟩⟩ : SquashBody).exposure.total cheques amount) ∧
    Below ⟨3, 5, .empty⟩ ⟨3, 4, ⟨[2]⟩⟩ ∧ ¬Below ⟨3, 4, ⟨[2]⟩⟩ zero :=
  ⟨(squashOrder (c := zero) (by decide) (by decide) wellFormed_zero).1, by decide, by decide⟩

end SquashBody

end Konduit.Data
