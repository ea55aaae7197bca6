import Konduit.Cardano.Value

/-!
# Subtraction of values

The subtraction goes through the entries of the right-hand side and takes each off in place.  It
asks for an entry on the left even where there is nothing to take off, and what it has taken off
before an entry is refused stays off.  So it is exact and leaves the value as it was when it fails
(`exactSub_iff`) only where neither shows.
-/

open Lib

namespace Konduit.Cardano.Value

/-- What is subtracted is held, exactly this is taken off, and a value that does not hold it stays
as it was. -/
structure ExactSub (lhs rhs : Value UInt64) : Prop where
  eq_ok_iff : (checkedSub lhs rhs).1 = .ok () ↔ Covers lhs rhs
  quantityOf_eq : (checkedSub lhs rhs).1 = .ok () → ∀ unit,
    quantityOf (checkedSub lhs rhs).2 unit = quantityOf lhs unit - quantityOf rhs unit
  normal : (checkedSub lhs rhs).1 = .ok () → (checkedSub lhs rhs).2.assets.Normal
  add_eq : (checkedSub lhs rhs).1 = .ok () → (checkedSub lhs rhs).2.add rhs = lhs.pruned
  eq_of_ne_ok : (checkedSub lhs rhs).1 ≠ .ok () → (checkedSub lhs rhs).2 = lhs

/-! ### What is subtracted entry by entry -/

/-- Each entry has one that is at least as large. -/
def Holds (lhs rhs : OrdMap Bytes UInt64) : Prop :=
  ∀ (n : Bytes) (quantity : UInt64), rhs[n]? = some quantity →
    ∃ held, lhs[n]? = some held ∧ quantity ≤ held

/-- Each policy is there, with enough of each of its assets. -/
def HoldsAssets (lhs rhs : Assets UInt64) : Prop :=
  ∀ (p : BytesN 28) (inner : OrdMap Bytes UInt64), rhs[p]? = some inner →
    ∃ held, lhs[p]? = some held ∧ Holds held inner

/-- There is nothing to take off before the first entry that has none as large. -/
def Idle (lhs rhs : OrdMap Bytes UInt64) : Prop :=
  ∀ before n quantity after, rhs.toList = before ++ (n, quantity) :: after →
    (∀ x ∈ before, ∃ held, lhs[x.1]? = some held ∧ x.2 ≤ held) →
      ∀ held, lhs[n]? = some held → quantity ≤ held → quantity = 0

/-- There is nothing to take off before the first policy that does not have enough. -/
def IdleAssets (lhs rhs : Assets UInt64) : Prop :=
  ∀ before p inner after, rhs.toList = before ++ (p, inner) :: after →
    (∀ x ∈ before, ∃ held, lhs[x.1]? = some held ∧ Holds held x.2) →
      ∀ held, lhs[p]? = some held → Idle held inner

section Inner

variable {p : BytesN 28} {n : Bytes} {quantity held : UInt64} {lhs rhs : OrdMap Bytes UInt64}

lemma subQuantity_of_le (h : quantity ≤ held) :
    subQuantity p n quantity held = (.ok (), held - quantity) := by
  have hsub : CheckedSub.checkedSub held quantity = some (held - quantity) :=
    Word.checkedSub_of_le h
  rw [subQuantity, hsub]

lemma subQuantity_of_not_le (h : ¬quantity ≤ held) :
    subQuantity p n quantity held =
      (.error (.insufficientQuantity p n held quantity), held) := by
  have hsub : CheckedSub.checkedSub held quantity = none := if_neg h
  rw [subQuantity, hsub]

lemma subQuantity_eq_ok_iff : (subQuantity p n quantity held).1 = .ok () ↔ quantity ≤ held := by
  by_cases h : quantity ≤ held
  · simp [subQuantity_of_le h, h]
  · simp [subQuantity_of_not_le h, h]

/-- Only nothing is taken off without a change. -/
lemma subQuantity_snd_eq_iff :
    (subQuantity p n quantity held).2 = held ↔ (quantity ≤ held → quantity = 0) := by
  by_cases h : quantity ≤ held
  · rw [subQuantity_of_le h, ← UInt64.toNat_inj, UInt64.toNat_sub_of_le _ _ h, ← UInt64.toNat_inj]
    rw [UInt64.toNat_zero, imp_iff_right h]
    rw [UInt64.le_iff_toNat_le] at h
    omega
  · simp [subQuantity_of_not_le h, h]

lemma accepts_subQuantity_iff {x : Bytes × UInt64} :
    OrdMap.Accepts (subQuantity p) lhs x ↔ ∃ held, lhs[x.1]? = some held ∧ x.2 ≤ held := by
  simp only [OrdMap.Accepts, subQuantity_eq_ok_iff]

theorem subAssets_eq_ok_iff : (subAssets p rhs lhs).1 = .ok () ↔ Holds lhs rhs := by
  rw [subAssets, OrdMap.sweep_eq_ok_iff (OrdMap.nodup_keys rhs)]
  simp only [accepts_subQuantity_iff, Prod.forall, OrdMap.mem_toList_iff, Holds]

theorem subAssets_snd_eq_iff : (subAssets p rhs lhs).2 = lhs ↔ Idle lhs rhs := by
  rw [subAssets, OrdMap.sweep_snd_eq_iff (OrdMap.nodup_keys rhs)]
  simp only [accepts_subQuantity_iff, subQuantity_snd_eq_iff, Idle]

/-- What is left of a policy's assets. -/
lemma getD_subAssets (h : Holds lhs rhs) (n : Bytes) :
    (subAssets p rhs lhs).2[n]?.getD 0 = lhs[n]?.getD 0 - rhs[n]?.getD 0 := by
  have hok : (subAssets p rhs lhs).1 = .ok () := subAssets_eq_ok_iff.mpr h
  rw [subAssets, OrdMap.getElem?_sweep_toList hok]
  cases hq : rhs[n]? with
  | none => rw [Option.getD_none, UInt64.sub_zero]
  | some quantity =>
    obtain ⟨held, hheld, hle⟩ := h n quantity hq
    simp only [hheld, Option.map_some, subQuantity_of_le hle, Option.getD_some]

end Inner

section Outer

variable {lhs rhs : Assets UInt64}

/-- The entries of the right-hand side are taken off, policy by policy. -/
def sweepAssets (lhs rhs : Assets UInt64) : Except (SubError UInt64) PUnit × Assets UInt64 :=
  OrdMap.sweep .unknownScriptHash subAssets rhs.toList lhs

lemma accepts_subAssets_iff {x : BytesN 28 × OrdMap Bytes UInt64} :
    OrdMap.Accepts subAssets lhs x ↔ ∃ held, lhs[x.1]? = some held ∧ Holds held x.2 := by
  simp only [OrdMap.Accepts, subAssets_eq_ok_iff]

theorem sweepAssets_eq_ok_iff : (sweepAssets lhs rhs).1 = .ok () ↔ HoldsAssets lhs rhs := by
  rw [sweepAssets, OrdMap.sweep_eq_ok_iff (OrdMap.nodup_keys rhs)]
  simp only [accepts_subAssets_iff, Prod.forall, OrdMap.mem_toList_iff, HoldsAssets]

theorem sweepAssets_snd_eq_iff : (sweepAssets lhs rhs).2 = lhs ↔ IdleAssets lhs rhs := by
  rw [sweepAssets, OrdMap.sweep_snd_eq_iff (OrdMap.nodup_keys rhs)]
  simp only [accepts_subAssets_iff, subAssets_snd_eq_iff, IdleAssets]

lemma quantity_sweepAssets (h : HoldsAssets lhs rhs) (p : BytesN 28) (n : Bytes) :
    Assets.quantity (sweepAssets lhs rhs).2 p n =
      Assets.quantity lhs p n - Assets.quantity rhs p n := by
  have hok : (sweepAssets lhs rhs).1 = .ok () := sweepAssets_eq_ok_iff.mpr h
  rw [Assets.quantity, sweepAssets, OrdMap.getElem?_sweep_toList hok]
  cases hp : rhs[p]? with
  | none => rw [Assets.quantity_of_none hp, UInt64.sub_zero, Assets.quantity]
  | some inner =>
    obtain ⟨held, hheld, hholds⟩ := h p inner hp
    rw [Assets.quantity_of_getElem? hheld, Assets.quantity_of_getElem? hp]
    simp only [hheld, Option.map_some, Option.bind_some]
    exact getD_subAssets hholds n

end Outer

/-! ### The whole subtraction -/

section Value

variable {lhs rhs : Value UInt64}

lemma checkedSub_of_lt (h : lhs.lovelace < rhs.lovelace) :
    checkedSub lhs rhs = (.error (.insufficientLovelace lhs.lovelace rhs.lovelace), lhs) := by
  have hsub : Word.checkedSub lhs.lovelace rhs.lovelace = none := if_neg (not_le.mpr h)
  rw [checkedSub, hsub]

lemma checkedSub_of_holds (h : rhs.lovelace ≤ lhs.lovelace)
    (hholds : HoldsAssets lhs.assets rhs.assets) :
    checkedSub lhs rhs = (.ok (), ⟨lhs.lovelace - rhs.lovelace,
      Assets.pruneNullValues (sweepAssets lhs.assets rhs.assets).2⟩) := by
  have hok := sweepAssets_eq_ok_iff.mpr hholds
  rcases hsweep : sweepAssets lhs.assets rhs.assets with ⟨_ | ⟨⟨⟩⟩, assets⟩
  · rw [hsweep] at hok
    cases hok
  · rw [sweepAssets] at hsweep
    simp only [checkedSub, Word.checkedSub_of_le h, hsweep]

lemma checkedSub_of_not_holds (h : rhs.lovelace ≤ lhs.lovelace)
    (hholds : ¬HoldsAssets lhs.assets rhs.assets) :
    (checkedSub lhs rhs).1 ≠ .ok () ∧
      (checkedSub lhs rhs).2 =
        ⟨lhs.lovelace - rhs.lovelace, (sweepAssets lhs.assets rhs.assets).2⟩ := by
  rcases hsweep : sweepAssets lhs.assets rhs.assets with ⟨e | ⟨⟨⟩⟩, assets⟩
  · rw [sweepAssets] at hsweep
    have hsub : checkedSub lhs rhs = (.error e, ⟨lhs.lovelace - rhs.lovelace, assets⟩) := by
      simp only [checkedSub, Word.checkedSub_of_le h, hsweep]
    rw [hsub]
    exact ⟨by simp, rfl⟩
  · exact absurd (sweepAssets_eq_ok_iff.mp (by rw [hsweep])) hholds

/-- What is taken off entry by entry is held. -/
lemma covers_of_holds (h : rhs.lovelace ≤ lhs.lovelace)
    (hholds : HoldsAssets lhs.assets rhs.assets) : Covers lhs rhs := by
  intro unit
  cases unit with
  | lovelace => exact h
  | asset p n =>
    rw [quantityOf, quantityOf]
    cases hp : rhs.assets[p]? with
    | none =>
      rw [Assets.quantity_of_none hp]
      exact UInt64.zero_le
    | some inner =>
      obtain ⟨held, hheld, hinner⟩ := hholds p inner hp
      rw [Assets.quantity_of_getElem? hp, Assets.quantity_of_getElem? hheld]
      cases hq : inner[n]? with
      | none => exact UInt64.zero_le
      | some quantity =>
        obtain ⟨q, hq', hle⟩ := hinner n quantity hq
        rw [hq']
        exact hle

/-- Entry by entry, what there is gives the exact difference. -/
lemma exactSub_of_holds (h : rhs.lovelace ≤ lhs.lovelace)
    (hholds : HoldsAssets lhs.assets rhs.assets) : ExactSub lhs rhs := by
  have hsub := checkedSub_of_holds h hholds
  have hquantity : ∀ unit,
      quantityOf (checkedSub lhs rhs).2 unit = quantityOf lhs unit - quantityOf rhs unit := by
    intro unit
    rw [hsub]
    cases unit with
    | lovelace => rfl
    | asset p n =>
      rw [quantityOf, Assets.quantity_pruneNullValues, quantity_sweepAssets hholds]
      rfl
  have hnormal : (checkedSub lhs rhs).2.assets.Normal := by
    rw [hsub]
    exact Assets.normal_pruneNullValues _
  refine ⟨?_, fun _ => hquantity, fun _ => hnormal, fun _ => ?_, ?_⟩
  · rw [hsub]
    exact iff_of_true rfl (covers_of_holds h hholds)
  · refine eq_of_quantityOf (normal_add _ _) (Assets.normal_pruneNullValues _) fun unit => ?_
    rw [quantityOf_add, hquantity, UInt64.sub_add_cancel, ← quantityOf_pruned lhs, pruned]
  · rw [hsub]
    exact fun hne => absurd rfl hne

/-- A subtraction that succeeds is exact. -/
lemma exactSub_of_checkedSub {v : Value UInt64} (h : checkedSub lhs rhs = (.ok (), v)) :
    ExactSub lhs rhs := by
  by_cases hlt : lhs.lovelace < rhs.lovelace
  · rw [checkedSub_of_lt hlt] at h
    cases h
  have hle : rhs.lovelace ≤ lhs.lovelace := not_lt.mp hlt
  by_cases hholds : HoldsAssets lhs.assets rhs.assets
  · exact exactSub_of_holds hle hholds
  · exact absurd (by rw [h]) (checkedSub_of_not_holds hle hholds).1

/-- What is left and what is taken off make up what there was. -/
lemma quantityOf_of_checkedSub {v : Value UInt64} (h : checkedSub lhs rhs = (.ok (), v))
    (unit : Unit) :
    (quantityOf lhs unit).toNat = (quantityOf rhs unit).toNat + (quantityOf v unit).toNat := by
  have hexact := exactSub_of_checkedSub h
  have hcovers := hexact.eq_ok_iff.mp (by rw [h]) unit
  have hquantity := hexact.quantityOf_eq (by rw [h]) unit
  rw [h] at hquantity
  rw [hquantity, UInt64.toNat_sub_of_le _ _ hcovers]
  rw [UInt64.le_iff_toNat_le] at hcovers
  omega

lemma normal_of_checkedSub {v : Value UInt64} (h : checkedSub lhs rhs = (.ok (), v)) :
    v.assets.Normal := by
  have hnormal := (exactSub_of_checkedSub h).normal (by rw [h])
  rwa [h] at hnormal

/-- The subtraction is exact and leaves the value alone on failure where there is not enough
lovelace; where every entry has one as large; and where too much is asked for, no lovelace, and
nothing is taken off before the entry that is refused. -/
theorem exactSub_iff (lhs rhs : Value UInt64) :
    ExactSub lhs rhs ↔
      lhs.lovelace < rhs.lovelace ∨ HoldsAssets lhs.assets rhs.assets ∨
        rhs.lovelace = 0 ∧ ¬Covers lhs rhs ∧ IdleAssets lhs.assets rhs.assets := by
  by_cases hlt : lhs.lovelace < rhs.lovelace
  · refine iff_of_true ?_ (Or.inl hlt)
    have hsub := checkedSub_of_lt hlt
    have hnot : ¬Covers lhs rhs := fun h => absurd (h .lovelace) (not_le.mpr hlt)
    refine ⟨?_, ?_, ?_, ?_, ?_⟩ <;> rw [hsub]
    · exact iff_of_false (by simp) hnot
    all_goals simp
  have hle : rhs.lovelace ≤ lhs.lovelace := not_lt.mp hlt
  rw [or_iff_right hlt]
  by_cases hholds : HoldsAssets lhs.assets rhs.assets
  · exact iff_of_true (exactSub_of_holds hle hholds) (Or.inl hholds)
  rw [or_iff_right hholds]
  obtain ⟨hne, hsnd⟩ := checkedSub_of_not_holds hle hholds
  constructor
  · intro h
    have heq := h.eq_of_ne_ok hne
    rw [hsnd] at heq
    refine ⟨?_, fun hcovers => hne (h.eq_ok_iff.mpr hcovers), ?_⟩
    · have hlovelace := congrArg (fun v => v.lovelace.toNat) heq
      simp only [UInt64.toNat_sub_of_le _ _ hle] at hlovelace
      rw [← UInt64.toNat_inj, UInt64.toNat_zero]
      rw [UInt64.le_iff_toNat_le] at hle
      omega
    · exact sweepAssets_snd_eq_iff.mp (congrArg Value.assets heq)
  · rintro ⟨hzero, hnot, hidle⟩
    have heq : (checkedSub lhs rhs).2 = lhs := by
      rw [hsnd, hzero, UInt64.sub_zero, sweepAssets_snd_eq_iff.mpr hidle]
    exact ⟨iff_of_false hne hnot, fun h => absurd h hne, fun h => absurd h hne,
      fun h => absurd h hne, fun _ => heq⟩

/-- An entry of which there is nothing to take off is refused, after the lovelace is taken off. -/
theorem not_exactSub_of_zero :
    ¬ExactSub (new 5) ⟨3, Std.ExtTreeMap.ofList
      [(BytesN.fill 28 7, Std.ExtTreeMap.ofList [([1], 0)] compare)] compare⟩ := by
  intro h
  have heq := congrArg Value.lovelace (h.eq_of_ne_ok (by decide))
  exact absurd heq (by decide)

end Value

end Konduit.Cardano.Value
