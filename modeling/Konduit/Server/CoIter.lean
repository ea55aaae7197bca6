import Konduit.Lib.OrdMap

/-!
# Two sources side by side

Keys in order on the left, and a map on the right.  The iterator takes what comes first on either
side, or both at once where the keys agree, so that each key of either side comes once, and with it
what each side has there (`CoIter.merges_items`).
-/

open Lib

namespace Konduit.Server

variable {K V : Type}

/-- Which side has a key, and the value that the right one has there. -/
inductive CoItem (K V : Type) where
  | left (key : K)
  | right (key : K) (value : V)
  | both (key : K) (value : V)

/-- The key of an item. -/
def CoItem.key : CoItem K V → K
  | left key => key
  | right key _ => key
  | both key _ => key

/-- What is still to come on either side. -/
structure CoIter (K V : Type) where
  left : List K
  right : List (K × V)

namespace CoIter

variable [Ord K]

/-- Go through a list and a map side by side. -/
def new [Std.TransOrd K] (left : List K) (right : OrdMap K V) : CoIter K V := ⟨left, right.toList⟩

/-- The next item, and what is to come after it. -/
def next : CoIter K V → Option (CoItem K V × CoIter K V)
  | ⟨l :: left, (r, v) :: right⟩ =>
    match compare l r with
    | .lt => some (.left l, ⟨left, (r, v) :: right⟩)
    | .gt => some (.right r v, ⟨l :: left, right⟩)
    | .eq => some (.both l v, ⟨left, right⟩)
  | ⟨l :: left, []⟩ => some (.left l, ⟨left, []⟩)
  | ⟨[], (r, v) :: right⟩ => some (.right r v, ⟨[], right⟩)
  | ⟨[], []⟩ => none

/-- What is to come gets less. -/
lemma length_lt_of_next {self self' : CoIter K V} {item : CoItem K V}
    (h : self.next = some (item, self')) :
    self'.left.length + self'.right.length < self.left.length + self.right.length := by
  obtain ⟨_ | ⟨l, left⟩, _ | ⟨⟨r, v⟩, right⟩⟩ := self
  · cases h
  · cases h
    simp
  · cases h
    simp
  · rw [next] at h
    cases hcompare : compare l r with
    | lt =>
      simp only [hcompare] at h
      cases h
      simp
    | eq =>
      simp only [hcompare] at h
      cases h
      simp only [List.length_cons]
      omega
    | gt =>
      simp only [hcompare] at h
      cases h
      simp

/-- All items, one after another. -/
def items (self : CoIter K V) : List (CoItem K V) :=
  match _h : self.next with
  | none => []
  | some (item, self') => item :: self'.items
termination_by self.left.length + self.right.length
decreasing_by exact length_lt_of_next _h

lemma items_of_none {self : CoIter K V} (h : self.next = none) : self.items = [] := by
  rw [items]
  split <;> simp_all

lemma items_of_some {self self' : CoIter K V} {item : CoItem K V}
    (h : self.next = some (item, self')) : self.items = item :: self'.items := by
  rw [items]
  split <;> simp_all

end CoIter

/-! ### One step -/

/-- Both sides are in the order of their keys. -/
structure CoIter.Ordered [Ord K] (iter : CoIter K V) : Prop where
  left : iter.left.Pairwise fun a b => compare a b = .lt
  right : (iter.right.map Prod.fst).Pairwise fun a b => compare a b = .lt

/-- The items tell each key of either side once, in their order, and what is there. -/
structure Merges [Ord K] (left : List K) (right : List (K × V)) (items : List (CoItem K V)) :
    Prop where
  sorted : (items.map CoItem.key).Pairwise fun a b => compare a b = .lt
  left_iff : ∀ k, CoItem.left k ∈ items ↔ k ∈ left ∧ k ∉ right.map Prod.fst
  right_iff : ∀ k v, CoItem.right k v ∈ items ↔ k ∉ left ∧ (k, v) ∈ right
  both_iff : ∀ k v, CoItem.both k v ∈ items ↔ k ∈ left ∧ (k, v) ∈ right

section Steps

variable {left : List K} {right : List (K × V)} {items : List (CoItem K V)} {k : K} {v : V}

lemma mem_keys_of_mem (h : (k, v) ∈ right) : k ∈ right.map Prod.fst := List.mem_map.mpr ⟨_, h, rfl⟩

variable [Ord K]

lemma Merges.nil : Merges ([] : List K) ([] : List (K × V)) [] := by
  constructor <;> simp

/-- The keys of the items are those of the two sides. -/
lemma Merges.mem_keys_iff (h : Merges left right items) :
    k ∈ items.map CoItem.key ↔ k ∈ left ∨ k ∈ right.map Prod.fst := by
  constructor
  · intro hk
    obtain ⟨item, hitem, rfl⟩ := List.mem_map.mp hk
    cases item with
    | left k => exact .inl ((h.left_iff k).mp hitem).1
    | right k v => exact .inr (mem_keys_of_mem ((h.right_iff k v).mp hitem).2)
    | both k v => exact .inl ((h.both_iff k v).mp hitem).1
  · intro hk
    by_cases hright : k ∈ right.map Prod.fst
    · obtain ⟨⟨k, v⟩, hv, rfl⟩ := List.mem_map.mp hright
      by_cases hleft : k ∈ left
      · exact List.mem_map.mpr ⟨_, (h.both_iff k v).mpr ⟨hleft, hv⟩, rfl⟩
      · exact List.mem_map.mpr ⟨_, (h.right_iff k v).mpr ⟨hleft, hv⟩, rfl⟩
    · exact List.mem_map.mpr ⟨_, (h.left_iff k).mpr ⟨hk.resolve_right hright, hright⟩, rfl⟩

/-- The items are in order behind a key that is before those of both sides. -/
lemma Merges.pairwise_cons (h : Merges left right items) (hleft : ∀ k' ∈ left, compare k k' = .lt)
    (hright : ∀ k' ∈ right.map Prod.fst, compare k k' = .lt) {item : CoItem K V}
    (hitem : item.key = k) :
    ((item :: items).map CoItem.key).Pairwise fun a b => compare a b = .lt := by
  rw [List.map_cons, List.pairwise_cons, hitem]
  refine ⟨fun k' hk' => ?_, h.sorted⟩
  exact (h.mem_keys_iff.mp hk').elim (hleft k') (hright k')

variable [Std.TransOrd K]

/-- The keys behind a key that comes before the first one. -/
lemma forall_lt_cons {k' : K} {l : List K} (hlt : compare k k' = .lt)
    (h : (k' :: l).Pairwise fun a b => compare a b = .lt) :
    ∀ k'' ∈ k' :: l, compare k k'' = .lt := by
  refine List.forall_mem_cons.mpr ⟨hlt, fun k'' hk'' => ?_⟩
  exact Std.TransCmp.lt_trans hlt ((List.pairwise_cons.mp h).1 k'' hk'')

lemma notMem_of_lt {l : List K} (h : ∀ k' ∈ l, compare k k' = .lt) : k ∉ l := by
  intro hk
  have hself := h k hk
  rw [@Std.ReflCmp.compare_self _ compare] at hself
  cases hself

/-- A key that only the left side has is first. -/
lemma Merges.cons_left (h : Merges left right items) (hleft : ∀ k' ∈ left, compare k k' = .lt)
    (hright : ∀ k' ∈ right.map Prod.fst, compare k k' = .lt) :
    Merges (k :: left) right (.left k :: items) := by
  have hk : k ∉ right.map Prod.fst := notMem_of_lt hright
  have hne : ∀ {k' v}, (k', v) ∈ right → k' ≠ k := fun hv heq => hk (heq ▸ mem_keys_of_mem hv)
  constructor
  · exact h.pairwise_cons hleft hright rfl
  · intro k'
    rw [List.mem_cons, CoItem.left.injEq, h.left_iff, List.mem_cons]
    grind
  · intro k' v
    rw [List.mem_cons, h.right_iff, List.mem_cons]
    grind
  · intro k' v
    rw [List.mem_cons, h.both_iff, List.mem_cons]
    grind

/-- A key that only the right side has is first. -/
lemma Merges.cons_right (h : Merges left right items) (hleft : ∀ k' ∈ left, compare k k' = .lt)
    (hright : ∀ k' ∈ right.map Prod.fst, compare k k' = .lt) :
    Merges left ((k, v) :: right) (.right k v :: items) := by
  have hk : k ∉ left := notMem_of_lt hleft
  constructor
  · exact h.pairwise_cons hleft hright rfl
  · intro k'
    rw [List.mem_cons, h.left_iff, List.map_cons, List.mem_cons]
    grind
  · intro k' v'
    rw [List.mem_cons, CoItem.right.injEq, h.right_iff, List.mem_cons, Prod.mk.injEq]
    grind
  · intro k' v'
    rw [List.mem_cons, h.both_iff, List.mem_cons, Prod.mk.injEq]
    grind

/-- A key that both sides have is first. -/
lemma Merges.cons_both (h : Merges left right items) (hleft : ∀ k' ∈ left, compare k k' = .lt)
    (hright : ∀ k' ∈ right.map Prod.fst, compare k k' = .lt) :
    Merges (k :: left) ((k, v) :: right) (.both k v :: items) := by
  have hk : k ∉ left := notMem_of_lt hleft
  have hk' : k ∉ right.map Prod.fst := notMem_of_lt hright
  have hne : ∀ {k' v}, (k', v) ∈ right → k' ≠ k := fun hv heq => hk' (heq ▸ mem_keys_of_mem hv)
  constructor
  · exact h.pairwise_cons hleft hright rfl
  · intro k'
    rw [List.mem_cons, h.left_iff, List.map_cons, List.mem_cons, List.mem_cons]
    grind
  · intro k' v'
    rw [List.mem_cons, h.right_iff, List.mem_cons, List.mem_cons, Prod.mk.injEq]
    grind
  · intro k' v'
    rw [List.mem_cons, CoItem.both.injEq, h.both_iff, List.mem_cons, List.mem_cons, Prod.mk.injEq]
    grind

end Steps

namespace CoIter

variable [Ord K] {self self' : CoIter K V} {item : CoItem K V}

lemma eq_nil_of_next (h : self.next = none) : self = ⟨[], []⟩ := by
  obtain ⟨_ | ⟨l, left⟩, _ | ⟨⟨r, v⟩, right⟩⟩ := self
  · rfl
  · cases h
  · cases h
  · rw [next] at h
    cases hcompare : compare l r <;> simp [hcompare] at h

variable [Std.TransOrd K] [Std.LawfulEqOrd K]

/-- What one step takes is first, and both sides stay in order. -/
lemma Ordered.next (h : self.Ordered) (hnext : self.next = some (item, self')) :
    self'.Ordered ∧ ∀ {items}, Merges self'.left self'.right items →
      Merges self.left self.right (item :: items) := by
  obtain ⟨_ | ⟨l, left⟩, _ | ⟨⟨r, v⟩, right⟩⟩ := self
  · cases hnext
  · cases hnext
    obtain ⟨hright, hordered⟩ := List.pairwise_cons.mp h.right
    exact ⟨⟨h.left, hordered⟩, fun hitems => hitems.cons_right (by simp) hright⟩
  · cases hnext
    obtain ⟨hleft, hordered⟩ := List.pairwise_cons.mp h.left
    exact ⟨⟨hordered, h.right⟩, fun hitems => hitems.cons_left hleft (by simp)⟩
  · obtain ⟨hleft, hleft'⟩ := List.pairwise_cons.mp h.left
    obtain ⟨hright, hright'⟩ := List.pairwise_cons.mp h.right
    rw [CoIter.next] at hnext
    cases hcompare : compare l r with
    | lt =>
      simp only [hcompare] at hnext
      cases hnext
      exact ⟨⟨hleft', h.right⟩, fun hitems =>
        hitems.cons_left hleft (forall_lt_cons hcompare h.right)⟩
    | eq =>
      simp only [hcompare] at hnext
      cases hnext
      obtain rfl := Std.LawfulEqOrd.eq_of_compare hcompare
      exact ⟨⟨hleft', hright'⟩, fun hitems => hitems.cons_both hleft hright⟩
    | gt =>
      simp only [hcompare] at hnext
      cases hnext
      have hlt : compare r l = .lt := Std.OrientedCmp.lt_of_gt hcompare
      exact ⟨⟨h.left, hright'⟩, fun hitems =>
        hitems.cons_right (forall_lt_cons hlt h.left) hright⟩

/-- Each key of either side comes once, in order, and with it what each side has there. -/
theorem merges_items (h : self.Ordered) : Merges self.left self.right self.items := by
  induction self using items.induct with
  | case1 self hnext =>
    rw [items_of_none hnext, eq_nil_of_next hnext]
    exact .nil
  | case2 self item self' hnext ih =>
    obtain ⟨hordered, hcons⟩ := h.next hnext
    rw [items_of_some hnext]
    exact hcons (ih hordered)

/-- Keys in order, and a map. -/
lemma merges_new {left : List K} (right : OrdMap K V)
    (h : left.Pairwise fun a b => compare a b = .lt) :
    Merges left right.toList (new left right).items := by
  have hordered : (new left right).Ordered := by
    refine ⟨h, ?_⟩
    rw [new, Std.ExtTreeMap.map_fst_toList_eq_keys]
    exact Std.ExtTreeMap.ordered_keys
  exact merges_items hordered

end CoIter

end Konduit.Server
