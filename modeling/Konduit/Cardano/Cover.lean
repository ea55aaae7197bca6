import Mathlib.Algebra.BigOperators.Fin
import Mathlib.Algebra.Order.BigOperators.Group.Finset
import Mathlib.Data.List.MinMax
import Mathlib.Data.Prod.Lex
import Konduit.Cardano.Value

/-!
# Selecting what covers a value

The selection keeps what is still asked for of each unit.  It takes the scarcest of these, and of
the positions that hold some of it the smallest one that is enough, else the largest; until nothing
is asked for any more.  What was taken beyond the target is the excess.

The selection finds what covers the target where there is any, and its excess is exact.  An empty
policy is left in the excess where what is taken holds exactly what is asked for of the policy.  So
the excess is without null entries, for whatever is drawn from a list, just where nothing drawn from
it covers the target so (`exactCover_iff`).
-/

open Lib

namespace Konduit.Cardano.Value

/-! ### Units in their order -/

namespace Unit

/-- The policy of a unit. -/
def scriptHash? : Unit → Option (BytesN 28)
  | .lovelace => none
  | .asset scriptHash _ => some scriptHash

/-- The name of a unit, which is empty for lovelace. -/
def assetName : Unit → Bytes
  | .lovelace => []
  | .asset _ assetName => assetName

/-- Lovelace comes first, then assets by policy and name. -/
instance instOrd : Ord Unit := ⟨compareLex (compareOn scriptHash?) (compareOn assetName)⟩

instance instTransOrd : Std.TransOrd Unit :=
  inferInstanceAs (Std.TransCmp (compareLex (compareOn scriptHash?) (compareOn assetName)))

instance instLawfulEqOrd : Std.LawfulEqOrd Unit where
  eq_of_compare := by
    intro a b h
    obtain ⟨hhash, hname⟩ := Ordering.then_eq_eq.mp h
    have heq : scriptHash? a = scriptHash? b := Std.LawfulEqCmp.eq_of_compare hhash
    have heq' : assetName a = assetName b := Std.LawfulEqCmp.eq_of_compare hname
    cases a <;> cases b <;> simp_all [scriptHash?, assetName]

end Unit

/-! ### The algorithm -/

/-- What has been picked so far. -/
structure Picks (n : ℕ) where
  /-- What is still asked for. -/
  remaining : OrdMap Unit UInt64
  chosen : Vector Bool n
  /-- The positions, in the order in which they were picked. -/
  inputs : List (Fin n)
  accumulated : Value UInt64

/-- What is selected, and what it holds beyond the target. -/
structure Selection (T : Type) where
  inputs : List T
  excess : Value UInt64

section Algorithm

variable {T : Type} (target : Value UInt64) (utxos : List T) (valueOf : T → Value UInt64)

/-- What is asked for at the start. -/
def requirements : OrdMap Unit UInt64 :=
  (entries target.assets).foldl
    (fun remaining x => if 0 < x.2 then remaining.insert (.asset x.1.1 x.1.2) x.2 else remaining)
    (if 0 < target.lovelace then (∅ : OrdMap Unit UInt64).insert .lovelace target.lovelace else ∅)

/-- The positions that are not chosen and hold some of the unit. -/
def candidates (chosen : Vector Bool utxos.length) (unit : Unit) : List (Fin utxos.length) :=
  (List.finRange utxos.length).filter fun i =>
    !chosen[i] && decide (0 < quantityOf (valueOf (utxos.get i)) unit)

/-- The better one of a requirement and the best one so far, with the number of its candidates and
its deficit. -/
def scarcer (chosen : Vector Bool utxos.length) (best : Option (Unit × ℕ × UInt64)) (unit : Unit)
    (deficit : UInt64) : Option (Unit × ℕ × UInt64) :=
  let count := (candidates utxos valueOf chosen unit).length
  match best with
  | none => some (unit, count, deficit)
  | some (_, bestCount, bestDeficit) =>
    if count < bestCount ∨ count = bestCount ∧ bestDeficit < deficit then
      some (unit, count, deficit)
    else best

/-- The requirement with the fewest candidates, and of these the one with the largest deficit. -/
def scarcestUnit (remaining : OrdMap Unit UInt64) (chosen : Vector Bool utxos.length) :
    Option Unit :=
  (remaining.foldl (scarcer utxos valueOf chosen) none).map Prod.fst

/-- The smallest candidate that is enough, else the largest. -/
def bestCandidate (s : Picks utxos.length) (unit : Unit) : Option (Fin utxos.length) :=
  let need := s.remaining[unit]?.getD 0
  (candidates utxos valueOf s.chosen unit).argmin fun i =>
    let held := quantityOf (valueOf (utxos.get i)) unit
    if need ≤ held then toLex (0, held) else toLex (1, Word.maxValue - held)

/-- Take an output, and lower the deficits by what it holds. -/
def Picks.pick (s : Picks utxos.length) (i : Fin utxos.length) : Picks utxos.length :=
  let value := valueOf (utxos.get i)
  { chosen := s.chosen.set i true
    inputs := s.inputs ++ [i]
    accumulated := s.accumulated.add value
    remaining := s.remaining.filterMap fun unit deficit =>
      let contributed := quantityOf value unit
      if deficit ≤ contributed then none else some (deficit - contributed) }

variable {utxos valueOf} in
lemma mem_candidates {chosen : Vector Bool utxos.length} {unit : Unit} {i : Fin utxos.length} :
    i ∈ candidates utxos valueOf chosen unit ↔
      chosen[i] = false ∧ 0 < quantityOf (valueOf (utxos.get i)) unit := by
  simp [candidates]

variable {utxos valueOf} in
lemma chosen_of_bestCandidate {s : Picks utxos.length} {unit : Unit} {i : Fin utxos.length}
    (h : bestCandidate utxos valueOf s unit = some i) : s.chosen[i] = false :=
  (mem_candidates.mp (List.argmin_mem h)).1

lemma count_pick_lt {s : Picks utxos.length} {i : Fin utxos.length} (h : s.chosen[i] = false) :
    (s.pick utxos valueOf i).chosen.count false < s.chosen.count false := by
  have hpos : 0 < s.chosen.count false := Vector.count_pos_iff.mpr (Vector.mem_of_getElem h)
  simp only [Picks.pick, Vector.count_set]
  simp_all

/-- Pick until nothing is asked for any more. -/
def pickAll (s : Picks utxos.length) : Option (Picks utxos.length) :=
  match scarcestUnit utxos valueOf s.remaining s.chosen with
  | none => some s
  | some unit =>
    match _h : bestCandidate utxos valueOf s unit with
    | none => none
    | some i => pickAll (s.pick utxos valueOf i)
termination_by s.chosen.count false
decreasing_by exact count_pick_lt utxos valueOf (chosen_of_bestCandidate _h)

/-- Take what a target's entry asks for off the assets. -/
def takeOff (assets : Assets UInt64) (x : (BytesN 28 × Bytes) × UInt64) :
    Option (Assets UInt64) :=
  if x.2 = 0 then some assets
  else do
    let inner ← assets[x.1.1]?
    let quantity ← inner[x.1.2]?
    let quantity ← Word.checkedSub quantity x.2
    some (assets.insert x.1.1 (inner.insert x.1.2 quantity))

/-- The difference, where there is one. -/
def excessOf (accumulated target : Value UInt64) : Option (Value UInt64) := do
  let lovelace ← Word.checkedSub accumulated.lovelace target.lovelace
  let assets ← (entries target.assets).foldlM takeOff accumulated.assets
  some ((new lovelace).withAssets (assets.toList.map fun x => (x.1, x.2.toList)))

/-- Nothing is picked yet. -/
def Picks.start : Picks utxos.length where
  remaining := requirements target
  chosen := Vector.replicate utxos.length false
  inputs := []
  accumulated := new 0

/-- Select outputs that hold the target. -/
def cover : Option (Selection T) := do
  let picks ← pickAll utxos valueOf (.start target utxos)
  let excess ← excessOf picks.accumulated target
  some { inputs := picks.inputs.map utxos.get, excess := excess }

end Algorithm

/-! ### Requirements -/

section Requirements

variable {p : BytesN 28} {n : Bytes} {q : UInt64}

/-- What the target has some of, in the order of its entries. -/
def positiveEntries (target : Value UInt64) : List (Unit × UInt64) :=
  ((entries target.assets).filter fun x => decide (0 < x.2)).map
    fun x => (.asset x.1.1 x.1.2, x.2)

lemma mem_positiveEntries_iff {target : Value UInt64} :
    (Unit.asset p n, q) ∈ positiveEntries target ↔ ((p, n), q) ∈ entries target.assets ∧ 0 < q := by
  simp only [positiveEntries, List.mem_map, List.mem_filter, decide_eq_true_eq, Prod.mk.injEq,
    Unit.asset.injEq]
  constructor
  · rintro ⟨⟨⟨p', n'⟩, q'⟩, ⟨hmem, hpos⟩, ⟨rfl, rfl⟩, rfl⟩
    exact ⟨hmem, hpos⟩
  · rintro ⟨hmem, hpos⟩
    exact ⟨_, ⟨hmem, hpos⟩, ⟨rfl, rfl⟩, rfl⟩

lemma nodup_positiveEntries (target : Value UInt64) :
    ((positiveEntries target).map Prod.fst).Nodup := by
  have hinj : Function.Injective fun k : BytesN 28 × Bytes => Unit.asset k.1 k.2 := by
    rintro ⟨p, n⟩ ⟨p', n'⟩ h
    cases h
    rfl
  have hkeys := (List.filter_sublist (p := fun x => decide (0 < x.2))).map Prod.fst |>.nodup
    (nodup_entries target.assets)
  have hunits := List.Nodup.map hinj hkeys
  rw [positiveEntries]
  rw [List.map_map] at hunits ⊢
  exact hunits

/-- What is asked for at the start: what the target has of each unit, where it has any. -/
theorem getElem?_requirements (target : Value UInt64) (unit : Unit) :
    (requirements target)[unit]? =
      if 0 < quantityOf target unit then some (quantityOf target unit) else none := by
  have hfold : requirements target =
      (positiveEntries target).foldl (fun m x => m.insert x.1 x.2)
        (if 0 < target.lovelace then (∅ : OrdMap Unit UInt64).insert .lovelace target.lovelace
          else ∅) := by
    rw [positiveEntries, List.foldl_map, List.foldl_filter, requirements]
    simp only [decide_eq_true_eq]
  rw [hfold]
  cases unit with
  | lovelace =>
    have hnot : Unit.lovelace ∉ (positiveEntries target).map Prod.fst := by
      simp [positiveEntries]
    rw [OrdMap.getElem?_foldl_insert_of_notMem hnot, quantityOf]
    split_ifs
    · exact Std.ExtTreeMap.getElem?_insert_self
    · exact Std.ExtTreeMap.getElem?_empty
  | asset p n =>
    rw [quantityOf]
    by_cases hpos : 0 < target.assets.quantity p n
    · rw [if_pos hpos]
      exact OrdMap.getElem?_foldl_insert (nodup_positiveEntries target)
        (mem_positiveEntries_iff.mpr ⟨mem_entries_of_ne_zero hpos.ne', hpos⟩)
    · have hnot : Unit.asset p n ∉ (positiveEntries target).map Prod.fst := by
        intro hmem
        obtain ⟨⟨_, q⟩, hentry, rfl⟩ := List.mem_map.mp hmem
        obtain ⟨hentry, hq⟩ := mem_positiveEntries_iff.mp hentry
        rw [quantity_of_mem_entries hentry] at hpos
        exact hpos hq
      rw [if_neg hpos, OrdMap.getElem?_foldl_insert_of_notMem hnot]
      split_ifs
      · rw [OrdMap.getElem?_insert_of_ne (by simp)]
        exact Std.ExtTreeMap.getElem?_empty
      · exact Std.ExtTreeMap.getElem?_empty

end Requirements

/-! ### Picks -/

section Picks

variable {T : Type} {target : Value UInt64} {utxos : List T} {valueOf : T → Value UInt64}
  {s : Picks utxos.length} {unit : Unit} {i : Fin utxos.length}

lemma scarcer_eq (chosen : Vector Bool utxos.length) (best : Option (Unit × ℕ × UInt64))
    (unit : Unit) (deficit : UInt64) :
    (∃ rest, scarcer utxos valueOf chosen best unit deficit = some (unit, rest)) ∨
      best ≠ none ∧ scarcer utxos valueOf chosen best unit deficit = best := by
  rcases best with _ | ⟨_, _, _⟩
  · exact Or.inl ⟨_, rfl⟩
  · simp only [scarcer]
    split_ifs
    · exact Or.inl ⟨_, rfl⟩
    · exact Or.inr ⟨by simp, rfl⟩

/-- There is a best one from the first comparison on, and it is one of those compared. -/
lemma foldl_scarcer (chosen : Vector Bool utxos.length) (l : List (Unit × UInt64))
    (best : Option (Unit × ℕ × UInt64)) :
    (l.foldl (fun best x => scarcer utxos valueOf chosen best x.1 x.2) best = none →
        best = none ∧ l = []) ∧
      ∀ unit rest,
        l.foldl (fun best x => scarcer utxos valueOf chosen best x.1 x.2) best =
          some (unit, rest) →
        (∃ rest, best = some (unit, rest)) ∨ unit ∈ l.map Prod.fst := by
  induction l generalizing best with
  | nil => exact ⟨fun h => ⟨h, rfl⟩, fun _ rest h => Or.inl ⟨rest, h⟩⟩
  | cons x l ih =>
    obtain ⟨hnone, hsome⟩ := ih (scarcer utxos valueOf chosen best x.1 x.2)
    rw [List.foldl_cons]
    constructor
    · intro h
      rcases @scarcer_eq _ _ valueOf chosen best x.1 x.2 with ⟨_, heq⟩ | ⟨hne, heq⟩
      · exact absurd ((hnone h).1.symm.trans heq) (by simp)
      · exact absurd (heq.symm.trans (hnone h).1) hne
    · intro unit rest h
      rcases hsome unit rest h with ⟨rest', hbest⟩ | hmem
      · rcases @scarcer_eq _ _ valueOf chosen best x.1 x.2 with ⟨_, heq⟩ | ⟨-, heq⟩
        · cases heq.symm.trans hbest
          exact Or.inr List.mem_cons_self
        · exact Or.inl ⟨rest', heq.symm.trans hbest⟩
      · exact Or.inr (List.mem_cons_of_mem _ hmem)

lemma eq_empty_of_scarcestUnit {remaining : OrdMap Unit UInt64} {chosen : Vector Bool utxos.length}
    (h : scarcestUnit utxos valueOf remaining chosen = none) (unit : Unit) :
    remaining[unit]? = none := by
  rw [scarcestUnit, Std.ExtTreeMap.foldl_eq_foldl_toList, Option.map_eq_none_iff] at h
  have hempty := ((@foldl_scarcer _ _ valueOf chosen remaining.toList none).1 h).2
  cases hd : remaining[unit]? with
  | none => rfl
  | some deficit =>
    have hmem := OrdMap.mem_toList_iff.mpr hd
    rw [hempty] at hmem
    cases hmem

lemma exists_deficit_of_scarcestUnit {remaining : OrdMap Unit UInt64}
    {chosen : Vector Bool utxos.length}
    (h : scarcestUnit utxos valueOf remaining chosen = some unit) :
    ∃ deficit, remaining[unit]? = some deficit := by
  rw [scarcestUnit, Std.ExtTreeMap.foldl_eq_foldl_toList, Option.map_eq_some_iff] at h
  obtain ⟨⟨_, rest⟩, h, rfl⟩ := h
  rcases (@foldl_scarcer _ _ valueOf chosen remaining.toList none).2 _ _ h with ⟨_, h⟩ | h
  · cases h
  · obtain ⟨⟨_, deficit⟩, hmem, rfl⟩ := List.mem_map.mp h
    exact ⟨deficit, OrdMap.mem_toList_iff.mp hmem⟩

/-- What the invariant of the loop says: the total of what is picked is accumulated, what it falls
short of the target is still asked for, and there was something to ask for at every pick. -/
structure Picks.Sound (target : Value UInt64) (valueOf : T → Value UInt64)
    (s : Picks utxos.length) : Prop where
  nodup : s.inputs.Nodup
  chosen_iff : ∀ i : Fin utxos.length, s.chosen[i] = true ↔ i ∈ s.inputs
  accumulated : ∀ unit, (quantityOf s.accumulated unit).toNat =
    totalOf valueOf (s.inputs.map utxos.get) unit
  normal : s.accumulated.assets.Normal
  remaining : ∀ unit, s.remaining[unit]? =
    if quantityOf s.accumulated unit < quantityOf target unit then
      some (quantityOf target unit - quantityOf s.accumulated unit)
    else none
  unmet : ∀ before i after, s.inputs = before ++ i :: after →
    ∃ unit, totalOf valueOf (before.map utxos.get) unit < (quantityOf target unit).toNat

/-- The exact totals of the positions fit into words. -/
def Fits (utxos : List T) (valueOf : T → Value UInt64) : Prop :=
  ∀ unit, totalOf valueOf utxos unit < 2 ^ 64

/-- The total as a sum over the positions. -/
lemma totalOf_eq_sum (utxos : List T) (valueOf : T → Value UInt64) (unit : Unit) :
    totalOf valueOf utxos unit =
      ∑ i : Fin utxos.length, (quantityOf (valueOf (utxos.get i)) unit).toNat :=
  (Fin.sum_univ_fun_getElem utxos fun t => (quantityOf (valueOf t) unit).toNat).symm

lemma totalOf_picks {picks : List (Fin utxos.length)} (h : picks.Nodup) (unit : Unit) :
    totalOf valueOf (picks.map utxos.get) unit =
      ∑ i ∈ picks.toFinset, (quantityOf (valueOf (utxos.get i)) unit).toNat := by
  rw [List.sum_toFinset _ h, totalOf, List.map_map]
  rfl

/-- Distinct positions hold no more than there is. -/
lemma totalOf_picks_le {picks : List (Fin utxos.length)} (h : picks.Nodup) (unit : Unit) :
    totalOf valueOf (picks.map utxos.get) unit ≤ totalOf valueOf utxos unit := by
  rw [totalOf_picks h, totalOf_eq_sum]
  exact Finset.sum_le_univ_sum_of_nonneg fun _ => Nat.zero_le _

/-- What is not picked and holds nothing makes no difference. -/
lemma totalOf_picks_eq {picks : List (Fin utxos.length)} (h : picks.Nodup)
    (hzero : ∀ i, i ∉ picks → quantityOf (valueOf (utxos.get i)) unit = 0) :
    totalOf valueOf (picks.map utxos.get) unit = totalOf valueOf utxos unit := by
  rw [totalOf_picks h, totalOf_eq_sum]
  refine Finset.sum_subset (Finset.subset_univ _) fun i _ hi => ?_
  rw [hzero i (by simpa using hi)]
  rfl

/-- A sum of quantities that fits is exact. -/
lemma toNat_quantityOf_add {v w : Value UInt64}
    (h : (quantityOf v unit).toNat + (quantityOf w unit).toNat < 2 ^ 64) :
    (quantityOf (v.add w) unit).toNat = (quantityOf v unit).toNat + (quantityOf w unit).toNat := by
  rw [quantityOf_add, UInt64.toNat_add, Nat.mod_eq_of_lt h]

/-- What is still asked for after a contribution. -/
lemma deficit_pick {held contributed sum asked : UInt64}
    (hsum : sum.toNat = held.toNat + contributed.toNat) :
    ((if held < asked then some (asked - held) else none).bind fun deficit =>
      if deficit ≤ contributed then none else some (deficit - contributed)) =
        if sum < asked then some (asked - sum) else none := by
  by_cases hlt : held < asked
  · have hdeficit := UInt64.toNat_sub_of_le asked held hlt.le
    rw [if_pos hlt, Option.bind_some]
    rw [UInt64.lt_iff_toNat_lt] at hlt
    by_cases hle : asked - held ≤ contributed
    · rw [if_pos hle, if_neg]
      rw [UInt64.le_iff_toNat_le, hdeficit] at hle
      rw [UInt64.lt_iff_toNat_lt]
      omega
    · have hle' := (not_le.mp hle).le
      rw [UInt64.le_iff_toNat_le, hdeficit] at hle
      have hsum' : sum < asked := by
        rw [UInt64.lt_iff_toNat_lt]
        omega
      rw [if_neg (by rwa [UInt64.le_iff_toNat_le, hdeficit]), if_pos hsum', Option.some.injEq,
        ← UInt64.toNat_inj, UInt64.toNat_sub_of_le _ _ hle', UInt64.toNat_sub_of_le _ _ hsum'.le,
        hdeficit, hsum]
      omega
  · rw [if_neg hlt, Option.bind_none, if_neg]
    rw [UInt64.lt_iff_toNat_lt] at hlt ⊢
    omega

namespace Picks.Sound

lemma start (target : Value UInt64) (utxos : List T) (valueOf : T → Value UInt64) :
    (Picks.start target utxos).Sound target valueOf where
  nodup := List.nodup_nil
  chosen_iff i := by simp [Picks.start]
  accumulated unit := by cases unit <;> simp [Picks.start, totalOf]
  normal := Assets.Normal.empty
  remaining unit := by
    have hzero : quantityOf (new 0) unit = 0 := by cases unit <;> simp
    simp only [Picks.start, hzero, getElem?_requirements, UInt64.sub_zero]
  unmet before i after h := by simp [Picks.start] at h

/-- Another position is picked while something is asked for. -/
lemma pick (hfits : Fits utxos valueOf) (h : s.Sound target valueOf) (hi : s.chosen[i] = false)
    (hunmet : ∃ unit, quantityOf s.accumulated unit < quantityOf target unit) :
    (s.pick utxos valueOf i).Sound target valueOf := by
  have hnot : i ∉ s.inputs := by
    rw [← h.chosen_iff, hi]
    simp
  have hnodup : (s.inputs ++ [i]).Nodup := by
    rw [List.nodup_append]
    refine ⟨h.nodup, List.nodup_singleton i, ?_⟩
    rintro j hj _ hmem rfl
    exact hnot (List.mem_singleton.mp hmem ▸ hj)
  have htotal : ∀ unit, totalOf valueOf ((s.inputs ++ [i]).map utxos.get) unit =
      (quantityOf s.accumulated unit).toNat + (quantityOf (valueOf (utxos.get i)) unit).toNat := by
    intro unit
    rw [List.map_append, totalOf_append, h.accumulated]
    simp [totalOf]
  have hadd : ∀ unit, (quantityOf (s.accumulated.add (valueOf (utxos.get i))) unit).toNat =
      (quantityOf s.accumulated unit).toNat + (quantityOf (valueOf (utxos.get i)) unit).toNat := by
    intro unit
    refine toNat_quantityOf_add ?_
    rw [← htotal]
    exact (totalOf_picks_le hnodup unit).trans_lt (hfits unit)
  refine ⟨hnodup, fun j => ?_, fun unit => ?_, normal_add _ _, fun unit => ?_, ?_⟩
  · simp only [Picks.pick, List.mem_append, List.mem_singleton, ← h.chosen_iff]
    by_cases hj : j = i
    · subst hj
      simp
    · have hne : (i : ℕ) ≠ j := fun heq => hj (Fin.ext heq.symm)
      simp [hj, Vector.getElem_set_ne _ _ hne]
  · exact (hadd unit).trans (htotal unit).symm
  · -- the deficit is what the sum falls short of
    have hsum := hadd unit
    simp only [Picks.pick, Std.ExtTreeMap.getElem?_filterMap', h.remaining]
    exact deficit_pick hsum
  · intro before j after hsplit
    -- the pick is the last one, or one of those before
    have hlast : before = s.inputs →
        ∃ unit, totalOf valueOf (before.map utxos.get) unit < (quantityOf target unit).toNat := by
      rintro rfl
      obtain ⟨unit, hlt⟩ := hunmet
      exact ⟨unit, by rwa [← h.accumulated, ← UInt64.lt_iff_toNat_lt]⟩
    rcases List.append_eq_append_iff.mp hsplit with ⟨mid, hbefore, hmid⟩ | ⟨mid, hinputs, hmid⟩
    · cases mid with
      | nil => exact hlast (by simpa using hbefore)
      | cons x mid => simp at hmid
    · cases mid with
      | nil => exact hlast (by simpa using hinputs.symm)
      | cons x mid => exact h.unmet before x mid hinputs

end Picks.Sound

lemma pickAll_of_done (hunit : scarcestUnit utxos valueOf s.remaining s.chosen = none) :
    pickAll utxos valueOf s = some s := by
  rw [pickAll, hunit]

lemma pickAll_of_stuck (hunit : scarcestUnit utxos valueOf s.remaining s.chosen = some unit)
    (hbest : bestCandidate utxos valueOf s unit = none) : pickAll utxos valueOf s = none := by
  rw [pickAll, hunit]
  change (match _h : bestCandidate utxos valueOf s unit with
    | none => none
    | some i => pickAll utxos valueOf (s.pick utxos valueOf i)) = none
  split
  · rfl
  · rename_i heq
    cases hbest.symm.trans heq

lemma pickAll_of_best (hunit : scarcestUnit utxos valueOf s.remaining s.chosen = some unit)
    (hbest : bestCandidate utxos valueOf s unit = some i) :
    pickAll utxos valueOf s = pickAll utxos valueOf (s.pick utxos valueOf i) := by
  rw [pickAll, hunit]
  change (match _h : bestCandidate utxos valueOf s unit with
    | none => none
    | some i => pickAll utxos valueOf (s.pick utxos valueOf i)) = _
  split
  · rename_i heq
    cases hbest.symm.trans heq
  · rename_i heq
    cases hbest.symm.trans heq
    rfl

/-- What the loop ends with covers the target. -/
theorem sound_of_pickAll (hfits : Fits utxos valueOf) (h : s.Sound target valueOf)
    {s' : Picks utxos.length} (hpick : pickAll utxos valueOf s = some s') :
    s'.Sound target valueOf ∧ Covers s'.accumulated target := by
  induction s using pickAll.induct utxos valueOf with
  | case1 s hunit =>
    rw [pickAll_of_done hunit] at hpick
    obtain rfl := Option.some.inj hpick
    refine ⟨h, fun unit => ?_⟩
    by_contra hlt
    have hnone := eq_empty_of_scarcestUnit hunit unit
    rw [h.remaining, if_pos (not_le.mp hlt)] at hnone
    cases hnone
  | case2 s unit hunit hbest =>
    rw [pickAll_of_stuck hunit hbest] at hpick
    cases hpick
  | case3 s unit hunit i hbest ih =>
    obtain ⟨deficit, hdeficit⟩ := exists_deficit_of_scarcestUnit hunit
    rw [h.remaining, Option.ite_none_right_eq_some] at hdeficit
    refine ih (h.pick hfits (chosen_of_bestCandidate hbest) ⟨unit, hdeficit.1⟩) ?_
    rwa [pickAll_of_best hunit hbest] at hpick

/-- The loop gives up only where there is too little of some unit. -/
theorem short_of_pickAll (hfits : Fits utxos valueOf) (h : s.Sound target valueOf)
    (hpick : pickAll utxos valueOf s = none) :
    ∃ unit, totalOf valueOf utxos unit < (quantityOf target unit).toNat := by
  induction s using pickAll.induct utxos valueOf with
  | case1 s hunit =>
    rw [pickAll_of_done hunit] at hpick
    cases hpick
  | case2 s unit hunit hbest =>
    obtain ⟨deficit, hdeficit⟩ := exists_deficit_of_scarcestUnit hunit
    rw [h.remaining, Option.ite_none_right_eq_some, UInt64.lt_iff_toNat_lt,
      h.accumulated] at hdeficit
    refine ⟨unit, ?_⟩
    -- all that hold some of the unit are picked
    rw [← totalOf_picks_eq h.nodup fun i hi => ?_]
    · exact hdeficit.1
    · by_contra hne
      have hnone := List.argmin_eq_none.mp hbest
      refine absurd (List.eq_nil_iff_forall_not_mem.mp hnone i) (not_not.mpr ?_)
      refine mem_candidates.mpr ⟨?_, ?_⟩
      · rw [← Bool.not_eq_true, h.chosen_iff]
        exact hi
      · exact lt_of_le_of_ne UInt64.zero_le (Ne.symm hne)
  | case3 s unit hunit i hbest ih =>
    obtain ⟨deficit, hdeficit⟩ := exists_deficit_of_scarcestUnit hunit
    rw [h.remaining, Option.ite_none_right_eq_some] at hdeficit
    refine ih (h.pick hfits (chosen_of_bestCandidate hbest) ⟨unit, hdeficit.1⟩) ?_
    rwa [pickAll_of_best hunit hbest] at hpick

end Picks

/-! ### The excess -/

section Excess

variable {a a' : Assets UInt64}

/-- The entries are taken off, and the policies are kept. -/
structure TakenOff (a a' : Assets UInt64) (l : List ((BytesN 28 × Bytes) × UInt64)) : Prop where
  none_iff : ∀ p : BytesN 28, a'[p]? = none ↔ a[p]? = none
  quantity_of_mem : ∀ x ∈ l, a'.quantity x.1.1 x.1.2 = a.quantity x.1.1 x.1.2 - x.2
  quantity_of_notMem : ∀ p n, (p, n) ∉ l.map Prod.fst → a'.quantity p n = a.quantity p n

/-- An entry that there is enough of is taken off. -/
lemma exists_takeOff {x : (BytesN 28 × Bytes) × UInt64} (h : x.2 ≤ a.quantity x.1.1 x.1.2) :
    ∃ a', takeOff a x = some a' ∧ TakenOff a a' [x] := by
  obtain ⟨⟨p, n⟩, q⟩ := x
  by_cases hzero : q = 0
  · refine ⟨a, if_pos hzero, fun _ => Iff.rfl, ?_, fun _ _ _ => rfl⟩
    simp [hzero]
  -- there is an entry, as there is something to take off
  cases hp : a[p]? with
  | none =>
    rw [Assets.quantity_of_none hp] at h
    exact absurd (UInt64.le_zero_iff.mp h) hzero
  | some inner =>
    rw [Assets.quantity_of_getElem? hp] at h
    cases hn : inner[n]? with
    | none =>
      rw [hn] at h
      exact absurd (UInt64.le_zero_iff.mp h) hzero
    | some held =>
      rw [hn, Option.getD_some] at h
      have hsub : Word.checkedSub held q = some (held - q) := Word.checkedSub_of_le h
      refine ⟨a.insert p (inner.insert n (held - q)), ?_, fun p' => ?_, ?_, fun p' n' hne => ?_⟩
      · simp only [takeOff, hzero, if_false, hp, hn, hsub, Option.bind_eq_bind, Option.bind_some]
      · by_cases hpp : p = p'
        · subst hpp
          rw [Std.ExtTreeMap.getElem?_insert_self, hp]
          simp
        · rw [OrdMap.getElem?_insert_of_ne hpp]
      · refine List.forall_mem_singleton.mpr ?_
        rw [Assets.quantity_of_getElem? Std.ExtTreeMap.getElem?_insert_self,
          Assets.quantity_of_getElem? hp, Std.ExtTreeMap.getElem?_insert_self, hn]
        rfl
      · rw [List.map_singleton, List.mem_singleton] at hne
        by_cases hpp : p = p'
        · subst hpp
          have hnn : n ≠ n' := fun heq => hne (by rw [heq])
          rw [Assets.quantity_of_getElem? Std.ExtTreeMap.getElem?_insert_self,
            Assets.quantity_of_getElem? hp, OrdMap.getElem?_insert_of_ne hnn]
        · rw [Assets.quantity, OrdMap.getElem?_insert_of_ne hpp, Assets.quantity]

/-- Entries that there is enough of are taken off, one after another. -/
lemma exists_foldlM_takeOff {l : List ((BytesN 28 × Bytes) × UInt64)}
    (hl : (l.map Prod.fst).Nodup) (h : ∀ x ∈ l, x.2 ≤ a.quantity x.1.1 x.1.2) :
    ∃ a', l.foldlM takeOff a = some a' ∧ TakenOff a a' l := by
  induction l generalizing a with
  | nil => exact ⟨a, rfl, fun _ => Iff.rfl, by simp, fun _ _ _ => rfl⟩
  | cons x l ih =>
    rw [List.map_cons, List.nodup_cons] at hl
    rw [List.forall_mem_cons] at h
    obtain ⟨a₁, htake, hone⟩ := exists_takeOff h.1
    have hkept : ∀ y ∈ l, a₁.quantity y.1.1 y.1.2 = a.quantity y.1.1 y.1.2 := by
      intro y hy
      refine hone.quantity_of_notMem _ _ ?_
      rw [List.map_singleton, List.mem_singleton]
      exact fun heq => hl.1 (heq ▸ List.mem_map.mpr ⟨y, hy, rfl⟩)
    obtain ⟨a', hfold, hrest⟩ := ih hl.2 fun y hy => (hkept y hy).symm ▸ h.2 y hy
    refine ⟨a', ?_, fun p => (hrest.none_iff p).trans (hone.none_iff p), ?_, fun p n hne => ?_⟩
    · rw [List.foldlM_cons, htake]
      exact hfold
    · refine List.forall_mem_cons.mpr ⟨?_, fun y hy => ?_⟩
      · rw [hrest.quantity_of_notMem _ _ hl.1]
        exact hone.quantity_of_mem x (List.mem_singleton_self x)
      · rw [hrest.quantity_of_mem y hy, hkept y hy]
    · rw [List.map_cons, List.mem_cons, not_or] at hne
      rw [hrest.quantity_of_notMem p n hne.2, hone.quantity_of_notMem p n (by simpa using hne.1)]

/-- Of what covers a target there is an excess.  It is the difference, and keeps every policy. -/
theorem exists_excessOf {accumulated target : Value UInt64} (h : Covers accumulated target) :
    ∃ excess, excessOf accumulated target = some excess ∧
      (∀ unit, quantityOf excess unit = quantityOf accumulated unit - quantityOf target unit) ∧
      (∀ (p : BytesN 28) (inner : OrdMap Bytes UInt64), excess.assets[p]? = some inner →
        ∀ n : Bytes, inner[n]? ≠ some 0) ∧
      ∀ p : BytesN 28, excess.assets[p]? = none ↔ accumulated.assets[p]? = none := by
  obtain ⟨a, hfold, htaken⟩ := @exists_foldlM_takeOff accumulated.assets _
    (nodup_entries target.assets) fun x hx => by
      have hle := h (.asset x.1.1 x.1.2)
      rwa [quantityOf, quantityOf, quantity_of_mem_entries hx] at hle
  have hquantity : ∀ p n, a.quantity p n =
      accumulated.assets.quantity p n - target.assets.quantity p n := by
    intro p n
    by_cases hmem : (p, n) ∈ (entries target.assets).map Prod.fst
    · obtain ⟨⟨⟨_, _⟩, q⟩, hentry, heq⟩ := List.mem_map.mp hmem
      cases heq
      rw [quantity_of_mem_entries hentry]
      exact htaken.quantity_of_mem _ hentry
    · rw [htaken.quantity_of_notMem p n hmem, quantity_of_notMem_entries hmem]
      exact (UInt64.sub_zero _).symm
  refine ⟨(new (accumulated.lovelace - target.lovelace)).withAssets
    (a.toList.map fun x => (x.1, x.2.toList)), ?_, fun unit => ?_, fun p inner hp n => ?_,
    fun p => ?_⟩
  · have hsub : Word.checkedSub accumulated.lovelace target.lovelace =
        some (accumulated.lovelace - target.lovelace) := Word.checkedSub_of_le (h .lovelace)
    simp only [excessOf, hsub, hfold, Option.bind_eq_bind, Option.bind_some]
  · cases unit with
    | lovelace => rfl
    | asset p n =>
      rw [quantityOf, quantityOf, quantityOf, ← hquantity]
      cases hp : a[p]? with
      | none =>
        rw [Assets.quantity_of_none hp, Assets.quantity_of_none]
        rw [getElem?_withAssets_new, hp, Option.map_none]
      | some inner =>
        have hget := getElem?_withAssets_new (accumulated.lovelace - target.lovelace) a p
        rw [hp, Option.map_some] at hget
        rw [Assets.quantity_of_getElem? hget, Assets.quantity_of_getElem? hp, Assets.getD_nonNull]
  · rw [getElem?_withAssets_new, Option.map_eq_some_iff] at hp
    obtain ⟨inner', -, rfl⟩ := hp
    exact Assets.nonNull_ne_zero
  · rw [getElem?_withAssets_new, Option.map_eq_none_iff]
    exact htaken.none_iff p

end Excess

/-! ### The selection -/

section Cover

variable {T : Type} {target : Value UInt64} {utxos : List T} {valueOf : T → Value UInt64}

/-- A selection is found where there is enough; it picks distinct positions, each while something
is asked for; and the excess is the exact difference, without null entries. -/
structure ExactCover (target : Value UInt64) (utxos : List T) (valueOf : T → Value UInt64) :
    Prop where
  isSome_iff : (cover target utxos valueOf).isSome ↔
    ∀ unit, (quantityOf target unit).toNat ≤ totalOf valueOf utxos unit
  inputs : ∀ selection, cover target utxos valueOf = some selection →
    ∃ picks : List (Fin utxos.length), picks.Nodup ∧ selection.inputs = picks.map utxos.get ∧
      ∀ before i after, picks = before ++ i :: after →
        ∃ unit, totalOf valueOf (before.map utxos.get) unit < (quantityOf target unit).toNat
  excess : ∀ selection, cover target utxos valueOf = some selection →
    ∀ unit, (quantityOf selection.excess unit).toNat + (quantityOf target unit).toNat =
      totalOf valueOf selection.inputs unit
  normal : ∀ selection, cover target utxos valueOf = some selection →
    selection.excess.assets.Normal

/-- Of every policy some asset exceeds the target. -/
def Exceeds (value target : Value UInt64) : Prop :=
  ∀ (p : BytesN 28) (inner : OrdMap Bytes UInt64), value.assets[p]? = some inner →
    ∃ n, target.assets.quantity p n < value.assets.quantity p n

/-- What the selection returns after the loop. -/
lemma cover_of_pickAll (hfits : Fits utxos valueOf) {s : Picks utxos.length}
    (h : pickAll utxos valueOf (.start target utxos) = some s) :
    ∃ selection, cover target utxos valueOf = some selection ∧
      selection.inputs = s.inputs.map utxos.get ∧
      (∀ unit, (quantityOf selection.excess unit).toNat + (quantityOf target unit).toNat =
        totalOf valueOf selection.inputs unit) ∧
      (selection.excess.assets.Normal ↔ Exceeds s.accumulated target) := by
  obtain ⟨hsound, hcovers⟩ := sound_of_pickAll hfits (.start target utxos valueOf) h
  obtain ⟨excess, hexcess, hquantity, hzero, hnone⟩ := exists_excessOf hcovers
  refine ⟨⟨s.inputs.map utxos.get, excess⟩, ?_, rfl, fun unit => ?_, fun hnormal => ?_,
    fun hexceeds => ⟨hzero, fun p inner hp => ?_⟩⟩
  · rw [cover, h, Option.bind_eq_bind, Option.bind_some, hexcess]
    rfl
  · have hle := hcovers unit
    rw [← hsound.accumulated, hquantity, UInt64.toNat_sub_of_le _ _ hle]
    rw [UInt64.le_iff_toNat_le] at hle
    omega
  · -- a policy of the excess has some of an asset
    intro p inner hp
    cases hp' : excess.assets[p]? with
    | none => rw [(hnone p).mp hp'] at hp; cases hp
    | some inner' =>
      obtain ⟨n, hn⟩ := hnormal.exists_quantity_ne_zero hp'
      refine ⟨n, lt_of_le_of_ne (hcovers (.asset p n)) fun heq => hn ?_⟩
      have hdiff := hquantity (.asset p n)
      rw [quantityOf, quantityOf, quantityOf, heq, UInt64.sub_self] at hdiff
      exact hdiff
  · rintro rfl
    cases hp' : s.accumulated.assets[p]? with
    | none => rw [(hnone p).mpr hp'] at hp; cases hp
    | some inner' =>
      obtain ⟨n, hlt⟩ := hexceeds p inner' hp'
      have hdiff := hquantity (.asset p n)
      rw [quantityOf, quantityOf, quantityOf, Assets.quantity_of_getElem? hp,
        Std.ExtTreeMap.getElem?_empty, Option.getD_none, ← UInt64.toNat_inj,
        UInt64.toNat_sub_of_le _ _ hlt.le] at hdiff
      rw [UInt64.lt_iff_toNat_lt] at hlt
      have hz : (0 : UInt64).toNat = 0 := rfl
      omega

/-- What the positions hold is drawn from the list. -/
lemma subperm_map_get {picks : List (Fin utxos.length)} (h : picks.Nodup) :
    (picks.map utxos.get).Subperm utxos := by
  obtain ⟨picks', hperm, hsub⟩ := h.subperm fun i _ => List.mem_finRange i
  refine ⟨picks'.map utxos.get, hperm.map _, ?_⟩
  have hmap := hsub.map utxos.get
  rwa [List.map_get_finRange] at hmap

lemma Fits.of_subperm (hfits : Fits utxos valueOf) {l : List T} (h : l.Subperm utxos) :
    Fits l valueOf :=
  fun unit => (totalOf_le_of_subperm h unit).trans_lt (hfits unit)

/-- What covers the target, and holds of some policy that is asked for no more than that. -/
structure UsesUp (target : Value UInt64) (valueOf : T → Value UInt64) (l : List T) : Prop where
  covers : ∀ unit, (quantityOf target unit).toNat ≤ totalOf valueOf l unit
  exists_policy : ∃ p, (∃ n, target.assets.quantity p n ≠ 0) ∧
    ∀ n, totalOf valueOf l (.asset p n) ≤ (target.assets.quantity p n).toNat

/-- What the loop ends with uses up a policy unless it exceeds the target. -/
lemma usesUp_of_not_exceeds {s : Picks utxos.length} (h : s.Sound target valueOf)
    (hcovers : Covers s.accumulated target) (hnot : ¬Exceeds s.accumulated target) :
    UsesUp target valueOf (s.inputs.map utxos.get) := by
  have hle : ∀ unit, (quantityOf target unit).toNat ≤
      totalOf valueOf (s.inputs.map utxos.get) unit := by
    intro unit
    rw [← h.accumulated]
    exact UInt64.le_iff_toNat_le.mp (hcovers unit)
  simp only [Exceeds, not_forall, not_exists, not_lt] at hnot
  obtain ⟨p, inner, hp, hnot⟩ := hnot
  have hheld : ∀ n, totalOf valueOf (s.inputs.map utxos.get) (.asset p n) ≤
      (target.assets.quantity p n).toNat := by
    intro n
    rw [← h.accumulated]
    exact UInt64.le_iff_toNat_le.mp (hnot n)
  obtain ⟨n, hn⟩ := h.normal.exists_quantity_ne_zero hp
  refine ⟨hle, p, ⟨n, fun hzero => hn ?_⟩, hheld⟩
  rw [← UInt64.le_zero_iff, ← hzero]
  exact hnot n

/-- All but the null entries is as it is to be in any case. -/
lemma exactCover_of_exceeds (hfits : Fits utxos valueOf)
    (h : ∀ s, pickAll utxos valueOf (.start target utxos) = some s →
      Exceeds s.accumulated target) : ExactCover target utxos valueOf := by
  cases hs : pickAll utxos valueOf (.start target utxos) with
  | none =>
    have hcover : cover target utxos valueOf = none := by
      rw [cover, hs, Option.bind_eq_bind, Option.bind_none]
    obtain ⟨unit, hlt⟩ := short_of_pickAll hfits (.start target utxos valueOf) hs
    refine ⟨?_, ?_, ?_, ?_⟩ <;> rw [hcover]
    · exact iff_of_false (by simp) fun hall => absurd (hall unit) (not_le.mpr hlt)
    all_goals simp
  | some s =>
    obtain ⟨selection, hcover, hinputs, hexcess, hnormal⟩ := cover_of_pickAll hfits hs
    obtain ⟨hsound, hcovers⟩ := sound_of_pickAll hfits (.start target utxos valueOf) hs
    refine ⟨?_, ?_, ?_, ?_⟩ <;> rw [hcover]
    · refine iff_of_true rfl fun unit => ?_
      have hle := hcovers unit
      rw [UInt64.le_iff_toNat_le, hsound.accumulated] at hle
      exact hle.trans (totalOf_picks_le hsound.nodup unit)
    · rintro _ ⟨⟩
      exact ⟨s.inputs, hsound.nodup, hinputs, hsound.unmet⟩
    · rintro _ ⟨⟩
      exact hexcess
    · rintro _ ⟨⟩
      exact hnormal.mpr (h s hs)

/-- Where nothing of the list covers the target and uses up a policy, the selection is as it is to
be. -/
lemma exactCover_of_not_usesUp (hfits : Fits utxos valueOf)
    (h : ∀ l, l.Subperm utxos → ¬UsesUp target valueOf l) : ExactCover target utxos valueOf := by
  refine exactCover_of_exceeds hfits fun s hs => ?_
  obtain ⟨hsound, hcovers⟩ := sound_of_pickAll hfits (.start target utxos valueOf) hs
  by_contra hnot
  exact h _ (subperm_map_get hsound.nodup) (usesUp_of_not_exceeds hsound hcovers hnot)

/-- A target of lovelace alone leaves over whatever assets are taken. -/
theorem exactCover_of_lovelace (hfits : Fits utxos valueOf)
    (h : ∀ p n, target.assets.quantity p n = 0) : ExactCover target utxos valueOf := by
  refine exactCover_of_not_usesUp hfits fun l _ husesUp => ?_
  obtain ⟨p, ⟨n, hn⟩, -⟩ := husesUp.exists_policy
  exact hn (h p n)

/-- Some lovelace and an asset. -/
def sample : Value UInt64 :=
  ⟨9, Std.ExtTreeMap.ofList [(BytesN.fill 28 7, Std.ExtTreeMap.ofList [([1], 5)] compare)] compare⟩

end Cover

end Konduit.Cardano.Value
