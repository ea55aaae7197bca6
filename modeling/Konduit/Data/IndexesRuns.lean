import Mathlib.Data.Finset.Card
import Mathlib.Data.List.Sort
import Konduit.Data.SquashExact
import Konduit.Lib.Trace

/-!
# Lists of excluded indexes as sets

A list of indexes stands for a set of few.  Whatever is done to it, it stays in order and short;
what fails leaves it as it was; and what succeeds makes it the list of the set that the operation
is to make (`Sound`).  Lists are compared by what they contain: one that contains more comes first
(`Compares`).
-/

open Lib

namespace Konduit.Data.Indexes

/-- The set that a list stands for. -/
def elements (self : Indexes) : Finset UInt64 := self.items.toFinset

@[simp] lemma mem_elements {self : Indexes} {item : UInt64} :
    item ∈ self.elements ↔ item ∈ self.items := List.mem_toFinset

section Elements

variable {self self' : Indexes} {item : UInt64}

lemma WellFormed.card_elements (h : self.WellFormed) :
    self.elements.card = self.items.length :=
  List.toFinset_card_of_nodup h.sorted.nodup

/-- There is one list of a set. -/
lemma WellFormed.eq_of_elements (h : self.WellFormed) (h' : self'.WellFormed)
    (heq : self.elements = self'.elements) : self = self' := by
  obtain ⟨items⟩ := self
  obtain ⟨items'⟩ := self'
  refine congrArg Indexes.mk (h.sorted.eq_of_mem_iff h'.sorted fun item => ?_)
  rw [← List.mem_toFinset, ← List.mem_toFinset]
  exact Finset.ext_iff.mp heq item

end Elements

/-! ### Operations -/

/-- Insert in place. -/
def insertMut (self : Indexes) (item : UInt64) : Except IndexesError Unit × Indexes :=
  if self.items.length ≥ maxExcludeLength then (.error .length, self)
  else
    match BinarySearch.listSearch self.items item with
    | .ok _ => (.error .duplicate, self)
    | .error index => (.ok (), ⟨self.items.insertIdx index item⟩)

/-- An operation on indexes, or what makes them. -/
inductive Operation where
  | new (items : List UInt64)
  | decode (bytes : Bytes)
  | extend (lo hi : UInt64)
  | insert (item : UInt64)
  | remove (item : UInt64)

/-- Why an operation fails. -/
inductive Failure where
  | indexes (error : IndexesError)
  | malformed

/-- What an operation returns, and the list after it.  A list that is made or decoded takes the
place of the one before. -/
def perform (usizeBits : ℕ) (self : Indexes) : Operation → Except Failure Unit × Indexes
  | .new items => inPlace self ((new items).mapError .indexes)
  | .decode bytes =>
    match decode bytes with
    | some (self', _) => (.ok (), self')
    | none => (.error .malformed, self)
  | .extend lo hi => (self.extendMut usizeBits lo hi).map (.mapError .indexes) id
  | .insert item => (self.insertMut item).map (.mapError .indexes) id
  | .remove item => (self.removeMut item).map (.mapError .indexes) id

/-- Operations lead here from the empty list. -/
def Reachable (usizeBits : ℕ) (self : Indexes) : Prop :=
  ∃ operations, Trace (fun self operation self' => self' = (perform usizeBits self operation).2)
    empty operations self

section Perform

variable {usizeBits : ℕ} {self self' : Indexes} {item lo hi : UInt64}

lemma insertMut_eq (self : Indexes) (item : UInt64) :
    self.insertMut item = inPlace self (self.insert item) := by
  rw [insertMut, insert]
  split_ifs
  · rfl
  · cases BinarySearch.listSearch self.items item <;> rfl

/-- What an operation makes of the list, where it succeeds. -/
def outcome (usizeBits : ℕ) (self : Indexes) : Operation → Except Failure Indexes
  | .new items => (new items).mapError .indexes
  | .decode bytes => ((decode bytes).map Prod.fst).elim (.error .malformed) .ok
  | .extend lo hi => (self.extend usizeBits lo hi).mapError .indexes
  | .insert item => (self.insert item).mapError .indexes
  | .remove item => (self.remove item).mapError .indexes

/-- An operation is done as a whole or not at all. -/
lemma perform_eq (operation : Operation) :
    perform usizeBits self operation = inPlace self (outcome usizeBits self operation) := by
  have hmap : ∀ r : Except IndexesError Indexes,
      (inPlace self r).map (.mapError .indexes) id =
        inPlace self (r.mapError Failure.indexes) := by
    intro r
    cases r <;> rfl
  cases operation with
  | new items => rfl
  | decode bytes =>
    rw [perform, outcome]
    cases decode bytes <;> rfl
  | extend lo hi => rw [perform, extendMut_eq, hmap, outcome]
  | insert item => rw [perform, insertMut_eq, hmap, outcome]
  | remove item => rw [perform, removeMut_eq, hmap, outcome]

end Perform

/-! ### What an operation makes of the set -/

section Sets

variable {usizeBits : ℕ} {self self' : Indexes} {item lo hi : UInt64}

/-- A list of another set is only made in one way. -/
lemma eq_of_elements_iff {made : Indexes} {s : Finset UInt64} (hmade : made.WellFormed)
    (helements : made.elements = s) :
    made = self' ↔ self'.WellFormed ∧ self'.elements = s := by
  constructor
  · rintro rfl
    exact ⟨hmade, helements⟩
  · rintro ⟨hself', h⟩
    exact hmade.eq_of_elements hself' (helements.trans h.symm)

lemma insertIdx_append (pre post : List UInt64) :
    (pre ++ post).insertIdx pre.length item = pre ++ item :: post := by
  induction pre with
  | nil => rfl
  | cons x pre ih => rw [List.cons_append, List.length_cons, List.insertIdx_succ_cons, ih]; rfl

/-- The items with one more between them. -/
lemma wellFormed_insert {pre post : List UInt64} (h : WellFormed ⟨pre ++ post⟩)
    (hpre : ∀ x ∈ pre, x < item) (hpost : ∀ x ∈ post, item < x)
    (hlen : (pre ++ post).length < maxExcludeLength) : WellFormed ⟨pre ++ item :: post⟩ := by
  obtain ⟨hpresorted, hpostsorted, hacross⟩ := List.pairwise_append.mp h.sorted
  constructor
  · rw [List.pairwise_append, List.pairwise_cons]
    refine ⟨hpresorted, ⟨hpost, hpostsorted⟩, fun x hx => ?_⟩
    exact List.forall_mem_cons.mpr ⟨hpre x hx, hacross x hx⟩
  · simp only [List.length_append, List.length_cons] at hlen ⊢
    omega

lemma insert_eq_ok_iff (h : self.WellFormed) :
    self.insert item = .ok self' ↔
      item ∉ self.elements ∧ self.elements.card < maxExcludeLength ∧
        self'.WellFormed ∧ self'.elements = {item} ∪ self.elements := by
  rw [insert, h.card_elements]
  split_ifs with hlen
  · simp [not_lt.mpr hlen]
  · rcases BinarySearch.listSearch_spec h.sorted item with
      ⟨pre, post, heq, hok⟩ | ⟨pre, post, heq, herr, hpre, hpost⟩
    · rw [hok, mem_elements, heq]
      simp
    · have hnotin : item ∉ self.elements := by
        rw [mem_elements, heq, List.mem_append]
        rintro (hmem | hmem)
        · exact lt_irrefl _ (hpre item hmem)
        · exact lt_irrefl _ (hpost item hmem)
      have hitems : self.items.insertIdx pre.length item = pre ++ item :: post := by
        rw [heq, insertIdx_append]
      have hmade : WellFormed ⟨pre ++ item :: post⟩ :=
        wellFormed_insert (heq ▸ h) hpre hpost (heq ▸ not_le.mp hlen)
      have helements : elements ⟨pre ++ item :: post⟩ = {item} ∪ self.elements := by
        ext x
        simp [heq, or_left_comm]
      rw [herr]
      simp only [hitems, Except.ok.injEq, eq_of_elements_iff hmade helements]
      simp [hnotin, not_le.mp hlen]

lemma remove_eq_ok_iff (h : self.WellFormed) :
    self.remove item = .ok self' ↔
      item ∈ self.elements ∧ self'.WellFormed ∧ self'.elements = self.elements.erase item := by
  have hmade : WellFormed ⟨self.items.erase item⟩ :=
    ⟨h.sorted.sublist List.erase_sublist, List.length_erase_le.trans h.short⟩
  have helements : elements ⟨self.items.erase item⟩ = self.elements.erase item := by
    ext x
    simp [h.sorted.nodup.mem_erase_iff]
  rw [remove_eq_ok h, mem_elements, ← eq_of_elements_iff hmade helements]
  refine and_congr_right fun _ => ?_
  obtain ⟨items⟩ := self'
  rw [Indexes.mk.injEq, eq_comm]

/-- There is room for the range behind the items. -/
structure Room (indexes : Indexes) (lo hi : UInt64) : Prop where
  le : lo ≤ hi
  below : lo < hi → ∀ x ∈ indexes.elements, x < lo
  short : lo < hi → indexes.elements.card + (hi.toNat - lo.toNat) ≤ maxExcludeLength

/-- What is extended ends below the range. -/
lemma below_of_extend (h : self.WellFormed) (hlt : lo < hi)
    (hok : self.extend usizeBits lo hi = .ok self') : ∀ i ∈ self.items, i < lo := by
  rw [extend, compare_gt_iff_gt.mpr hlt] at hok
  dsimp only at hok
  split_ifs at hok
  cases hlast : self.last with
  | none =>
    rw [List.getLast?_eq_none_iff.mp hlast]
    simp
  | some last =>
    simp only [hlast] at hok
    split_ifs at hok with hlo
    obtain ⟨items, heq⟩ := List.getLast?_eq_some_iff.mp hlast
    have hsorted := heq ▸ h.sorted
    intro i hi
    rw [heq, List.mem_append, List.mem_singleton] at hi
    rcases hi with hi | rfl
    · exact ((List.pairwise_append.mp hsorted).2.2 i hi last (by simp)).trans hlo
    · exact hlo

/-- The items with a range behind them. -/
lemma wellFormed_append_range (h : self.WellFormed) (hle : lo ≤ hi)
    (hbelow : lo < hi → ∀ i ∈ self.items, i < lo)
    (hshort : (self.items ++ range lo hi).length ≤ maxExcludeLength) :
    WellFormed ⟨self.items ++ range lo hi⟩ := by
  refine ⟨List.pairwise_append.mpr ⟨h.sorted, sorted_range hle, fun i hi j hj => ?_⟩, hshort⟩
  obtain ⟨hloj, hjhi⟩ := (mem_range hle).mp hj
  exact (hbelow (hloj.trans_lt hjhi) i hi).trans_le hloj

lemma extend_eq_ok_iff (hbits : 32 ≤ usizeBits) (h : self.WellFormed) :
    self.extend usizeBits lo hi = .ok self' ↔
      Room self lo hi ∧ self'.WellFormed ∧
        ∀ x, x ∈ self'.elements ↔ x ∈ self.elements ∨ lo ≤ x ∧ x < hi := by
  have hmade : ∀ {made : Indexes}, self.extend usizeBits lo hi = .ok made →
      Room self lo hi ∧ made.WellFormed ∧
        ∀ x, x ∈ made.elements ↔ x ∈ self.elements ∨ lo ≤ x ∧ x < hi := by
    intro made hok
    have hle : lo ≤ hi := by
      by_contra hgt
      rw [extend, compare_lt_iff_lt.mpr (not_le.mp hgt)] at hok
      cases hok
    have hbelow : lo < hi → ∀ i ∈ self.items, i < lo := fun hlt => below_of_extend h hlt hok
    obtain ⟨hitems, hshort⟩ := extend_eq_ok hle hok h.short
    obtain ⟨items⟩ := made
    obtain rfl : items = self.items ++ range lo hi := hitems
    refine ⟨⟨hle, fun hlt x hx => hbelow hlt x (mem_elements.mp hx), fun _ => ?_⟩, ?_, fun x => ?_⟩
    · rw [h.card_elements, ← toNat_sub_of_le hle, ← length_range, ← List.length_append]
      exact hshort
    · exact wellFormed_append_range h hle hbelow hshort
    · rw [mem_elements, mem_elements, List.mem_append, mem_range hle]
  refine ⟨hmade, ?_⟩
  rintro ⟨hroom, hself', helements⟩
  obtain ⟨made, hok⟩ : ∃ made, self.extend usizeBits lo hi = .ok made := by
    rcases hroom.le.eq_or_lt with rfl | hlt
    · exact ⟨self, by rw [extend, compare_eq_iff_eq.mpr rfl]⟩
    · refine extend_of_short hbits hroom.le ?_ (h.card_elements ▸ hroom.short hlt)
      exact fun i hi => hroom.below hlt i (mem_elements.mpr hi)
  obtain ⟨-, hwf, hmem⟩ := hmade hok
  rw [hok, hwf.eq_of_elements hself' (Finset.ext fun x => (hmem x).trans (helements x).symm)]

end Sets

/-! ### Comparison -/

/-- Go through the items, and drop those of the other list that are found. -/
def isSupersetOf : List UInt64 → List UInt64 → Bool
  | [], b => b.isEmpty
  | _ :: _, [] => true
  | x :: a, y :: b =>
    if x = y then isSupersetOf a b
    else if y < x then false
    else isSupersetOf a (y :: b)

/-- The comparison of indexes, in which those that contain more are less. -/
def partialCmp (a b : Indexes) : Option Ordering :=
  match isSupersetOf a.items b.items, isSupersetOf b.items a.items with
  | true, true => some .eq
  | true, false => some .lt
  | false, true => some .gt
  | false, false => none

/-- Lists are compared by what they contain. -/
structure Compares (a b : Indexes) : Prop where
  less : partialCmp a b = some .lt ↔ b.elements ⊂ a.elements
  equal : partialCmp a b = some .eq ↔ a.elements = b.elements
  greater : partialCmp a b = some .gt ↔ a.elements ⊂ b.elements
  incomparable : partialCmp a b = none ↔ ¬a.elements ⊆ b.elements ∧ ¬b.elements ⊆ a.elements

section Comparison

/-- The items that are left are above those that have been gone through, so they are found only
further on. -/
lemma isSupersetOf_iff {a b : List UInt64} (ha : a.Pairwise (· < ·)) (hb : b.Pairwise (· < ·)) :
    isSupersetOf a b = true ↔ b ⊆ a := by
  induction a generalizing b with
  | nil => rw [isSupersetOf, List.isEmpty_iff, List.subset_nil]
  | cons x a ih =>
    obtain ⟨hxa, ha⟩ := List.pairwise_cons.mp ha
    cases b with
    | nil => simp [isSupersetOf]
    | cons y b =>
      obtain ⟨hyb, hb'⟩ := List.pairwise_cons.mp hb
      have habove : ∀ {l : List UInt64}, (∀ z ∈ l, x < z) → (l ⊆ x :: a ↔ l ⊆ a) := by
        intro l hl
        refine ⟨fun h z hz => ?_, fun h => List.subset_cons_of_subset x h⟩
        exact (List.mem_cons.mp (h hz)).resolve_left (hl z hz).ne'
      rw [isSupersetOf]
      split_ifs with heq hlt
      · rw [ih ha hb', List.cons_subset, habove (heq ▸ hyb), and_iff_right]
        exact heq ▸ List.mem_cons_self
      · refine iff_of_false not_false fun h => ?_
        rcases List.mem_cons.mp (h List.mem_cons_self) with hyx | hya
        · exact heq hyx.symm
        · exact lt_asymm hlt (hxa y hya)
      · have hxy : x < y := lt_of_le_of_ne (not_lt.mp hlt) heq
        rw [ih ha hb, habove]
        exact List.forall_mem_cons.mpr ⟨hxy, fun z hz => hxy.trans (hyb z hz)⟩

lemma isSupersetOf_items {a b : Indexes} (ha : a.WellFormed) (hb : b.WellFormed) :
    isSupersetOf a.items b.items = true ↔ b.elements ⊆ a.elements := by
  rw [isSupersetOf_iff ha.sorted hb.sorted]
  exact forall_congr' fun x => by rw [mem_elements, mem_elements]

/-- The list that contains more comes first. -/
lemma compares {a b : Indexes} (ha : a.WellFormed) (hb : b.WellFormed) : Compares a b := by
  have hab := isSupersetOf_items ha hb
  have hba := isSupersetOf_items hb ha
  have heq : a.elements = b.elements ↔ b.elements ⊆ a.elements ∧ a.elements ⊆ b.elements :=
    Finset.Subset.antisymm_iff.trans and_comm
  constructor
  all_goals
    rw [partialCmp]
    simp only [heq, Finset.ssubset_def, ← hab, ← hba]
    cases isSupersetOf a.items b.items <;> cases isSupersetOf b.items a.items <;> simp

end Comparison

/-! ### Runs -/

/-- A list in order that is short, and on which the operations are those of the set. -/
structure Sound (usizeBits : ℕ) (indexes : Indexes) : Prop where
  wellFormed : indexes.WellFormed
  unchanged : ∀ operation failure after,
    perform usizeBits indexes operation = (.error failure, after) → after = indexes
  made : ∀ items after, perform usizeBits indexes (.new items) = (.ok (), after) ↔
    after = ⟨items⟩ ∧ after.WellFormed
  decoded : ∀ bytes after, perform usizeBits indexes (.decode bytes) = (.ok (), after) ↔
    ∃ rest, Cbor.readItems Cbor.readUInt bytes = some (after.items, rest) ∧ after.WellFormed
  has_iff : ∀ item, indexes.has item = true ↔ item ∈ indexes.elements
  inserted : ∀ item after, perform usizeBits indexes (.insert item) = (.ok (), after) ↔
    item ∉ indexes.elements ∧ indexes.elements.card < maxExcludeLength ∧
      after.WellFormed ∧ after.elements = {item} ∪ indexes.elements
  removed : ∀ item after, perform usizeBits indexes (.remove item) = (.ok (), after) ↔
    item ∈ indexes.elements ∧ after.WellFormed ∧ after.elements = indexes.elements.erase item
  extended : ∀ lo hi after, perform usizeBits indexes (.extend lo hi) = (.ok (), after) ↔
    Room indexes lo hi ∧ after.WellFormed ∧
      ∀ x, x ∈ after.elements ↔ x ∈ indexes.elements ∨ lo ≤ x ∧ x < hi

section Runs

variable {usizeBits : ℕ} {indexes after : Indexes}

lemma perform_eq_ok_iff {operation : Operation} :
    perform usizeBits indexes operation = (.ok (), after) ↔
      outcome usizeBits indexes operation = .ok after := by
  rw [perform_eq]
  cases outcome usizeBits indexes operation <;> simp [inPlace]

lemma decode_eq_some_iff {bytes rest : Bytes} :
    decode bytes = some (after, rest) ↔
      Cbor.readItems Cbor.readUInt bytes = some (after.items, rest) ∧ after.WellFormed := by
  simp only [decode, Option.bind_eq_bind, Option.bind_eq_some_iff, Option.pure_def,
    Option.some.injEq, Prod.mk.injEq, Result.toOption_eq_some, new_eq_ok]
  constructor
  · rintro ⟨⟨items, rest'⟩, hread, made, ⟨rfl, hmade⟩, rfl, rfl⟩
    exact ⟨hread, hmade⟩
  · rintro ⟨hread, hafter⟩
    exact ⟨_, hread, after, ⟨rfl, hafter⟩, rfl, rfl⟩

lemma outcome_decode_eq_ok_iff {bytes : Bytes} :
    outcome usizeBits indexes (.decode bytes) = .ok after ↔
      ∃ rest, decode bytes = some (after, rest) := by
  rw [outcome]
  rcases decode bytes with - | ⟨made, rest⟩
  · simp
  · simp

lemma sound (hbits : 32 ≤ usizeBits) (h : indexes.WellFormed) : Sound usizeBits indexes := by
  constructor
  · exact h
  · intro operation failure after hperform
    rw [perform_eq] at hperform
    cases hr : outcome usizeBits indexes operation with
    | ok made => simp [hr, inPlace] at hperform
    | error e =>
      rw [hr] at hperform
      exact (Prod.mk.inj hperform).2.symm
  · intro items after
    rw [perform_eq_ok_iff, outcome, Result.mapError_eq_ok, new_eq_ok]
  · intro bytes after
    rw [perform_eq_ok_iff, outcome_decode_eq_ok_iff]
    exact exists_congr fun rest => decode_eq_some_iff
  · exact fun item => (has_iff h).trans mem_elements.symm
  · intro item after
    rw [perform_eq_ok_iff, outcome, Result.mapError_eq_ok, insert_eq_ok_iff h]
  · intro item after
    rw [perform_eq_ok_iff, outcome, Result.mapError_eq_ok, remove_eq_ok_iff h]
  · intro lo hi after
    rw [perform_eq_ok_iff, outcome, Result.mapError_eq_ok, extend_eq_ok_iff hbits h]

/-- What an operation makes of a list is in order and short. -/
lemma Sound.perform_wellFormed (h : Sound usizeBits indexes) (operation : Operation) :
    (perform usizeBits indexes operation).2.WellFormed := by
  rcases hperform : perform usizeBits indexes operation with ⟨_ | ⟨⟨⟩⟩, after⟩
  · exact h.unchanged operation _ after hperform ▸ h.wellFormed
  · cases operation with
    | new items => exact ((h.made items after).mp hperform).2
    | decode bytes =>
      obtain ⟨rest, -, hafter⟩ := (h.decoded bytes after).mp hperform
      exact hafter
    | extend lo hi => exact ((h.extended lo hi after).mp hperform).2.1
    | insert item => exact ((h.inserted item after).mp hperform).2.2.1
    | remove item => exact ((h.removed item after).mp hperform).2.1

/-- Whatever has been done to it, a list is in order and short. -/
lemma Reachable.wellFormed (hbits : 32 ≤ usizeBits) (h : Reachable usizeBits indexes) :
    indexes.WellFormed := by
  obtain ⟨operations, hrun⟩ := h
  refine hrun.invariant (P := fun _ indexes => indexes.WellFormed) (by decide) ?_
  rintro _ indexes operation _ - hindexes rfl
  exact (sound hbits hindexes).perform_wellFormed operation

/-- **Bounded sorted sets.**  Whatever has been done to lists, they are in order and short, what
fails leaves them as they were, what succeeds does what it should to the sets that they stand for,
and they are compared by these sets. -/
theorem indexes_sorted_set (hbits : 32 ≤ usizeBits) :
    (∀ indexes, Reachable usizeBits indexes → Sound usizeBits indexes) ∧
      ∀ a b, Reachable usizeBits a → Reachable usizeBits b → Compares a b :=
  ⟨fun _ h => sound hbits (h.wellFormed hbits),
    fun _ _ ha hb => compares (ha.wellFormed hbits) (hb.wellFormed hbits)⟩

namespace Sample

lemma reachable_short : Reachable 32 ⟨[1, 5]⟩ :=
  ⟨_, .snoc (l := .new [1, 5]) .nil rfl⟩

lemma reachable_long : Reachable 32 ⟨[1, 3, 5, 6, 7]⟩ :=
  ⟨_, .snoc (l := .extend 6 8) (.snoc (l := .insert 3) (.snoc (l := .new [1, 5]) .nil rfl) rfl) rfl⟩

end Sample

theorem indexes_sorted_set_sample :
    Sound 32 ⟨[1, 3, 5, 6, 7]⟩ ∧ Compares ⟨[1, 3, 5, 6, 7]⟩ ⟨[1, 5]⟩ :=
  ⟨(indexes_sorted_set (by decide)).1 _ Sample.reachable_long,
    (indexes_sorted_set (by decide)).2 _ _ Sample.reachable_long Sample.reachable_short⟩

end Runs

end Konduit.Data.Indexes
