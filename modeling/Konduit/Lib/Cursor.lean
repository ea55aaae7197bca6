import Mathlib.Data.List.Basic
import Mathlib.Order.Lattice
import Mathlib.Tactic.Common

/-!
# Cursors that move up a linear order

A cursor stands at a bound.  Every position above the bound is still ahead of it, and
below the bound only the positions on a list of skips are.  Moving the cursor to a
position that is ahead leaves behind everything up to that position; moving it to any
other position fails.  When the skips are listed in increasing order, the positions
that a cursor can be moved through one after another are exactly the strictly
increasing lists of positions ahead of it (`Cursor.advanceAll_isSome_iff`).
-/

namespace Lib

/-- A position in a linear order, with the list of the positions below it that have not
been visited. -/
structure Cursor (α : Type*) where
  /-- Everything above is still ahead. -/
  bound : α
  /-- The positions up to the bound that are still ahead. -/
  skips : List α
deriving DecidableEq

namespace Cursor

variable {α : Type*}

/-- The part of a list after the first occurrence of an element, if it occurs. -/
def dropThrough [DecidableEq α] : List α → α → Option (List α)
  | [], _ => none
  | x :: l, i => if x = i then some l else dropThrough l i

lemma dropThrough_eq_some [DecidableEq α] {l l' : List α} {i : α} :
    dropThrough l i = some l' ↔ ∃ pre, i ∉ pre ∧ l = pre ++ i :: l' := by
  induction l with
  | nil => simp [dropThrough]
  | cons x l ih =>
    by_cases hx : x = i
    · subst hx
      simp only [dropThrough, if_true, Option.some.injEq]
      constructor
      · rintro rfl
        exact ⟨[], by simp, by simp⟩
      · rintro ⟨pre, hpre, heq⟩
        cases pre with
        | nil => simpa using heq
        | cons y pre =>
          simp only [List.cons_append, List.cons.injEq] at heq
          exact absurd (heq.1 ▸ List.mem_cons_self) hpre
    · simp only [dropThrough, if_neg hx, ih]
      constructor
      · rintro ⟨pre, hpre, rfl⟩
        exact ⟨x :: pre, by simp [hpre, Ne.symm hx], by simp⟩
      · rintro ⟨pre, hpre, heq⟩
        cases pre with
        | nil => exact absurd (by simpa using heq : x = i ∧ l = l').1 hx
        | cons y pre =>
          simp only [List.cons_append, List.cons.injEq] at heq
          exact ⟨pre, fun h => hpre (List.mem_cons_of_mem _ h), heq.2⟩

lemma dropThrough_isSome [DecidableEq α] {l : List α} {i : α} :
    (∃ l', dropThrough l i = some l') ↔ i ∈ l := by
  simp only [dropThrough_eq_some]
  constructor
  · rintro ⟨l', pre, -, rfl⟩
    simp
  · intro h
    obtain ⟨pre, l', hl, hpre⟩ := List.eq_append_cons_of_mem h
    exact ⟨l', pre, hpre, hl⟩

variable [LinearOrder α]

/-- The positions that the cursor has not passed. -/
def Ahead (c : Cursor α) (i : α) : Prop := c.bound < i ∨ i ∈ c.skips

/-- The skips are listed in increasing order. -/
def Ordered (c : Cursor α) : Prop := c.skips.Pairwise (· < ·)

/-- Move the cursor to a position: above the bound it takes the bound along, below it
the skips are dropped up to the position. -/
def advance (c : Cursor α) (i : α) : Option (Cursor α) :=
  if c.bound < i then some ⟨i, []⟩ else (dropThrough c.skips i).map (mk c.bound)

/-- Move the cursor through a list of positions. -/
def advanceAll (c : Cursor α) (is : List α) : Option (Cursor α) := is.foldlM advance c

variable {c c' : Cursor α} {i j : α} {is : List α}

@[simp] lemma advanceAll_nil : c.advanceAll [] = some c := rfl

@[simp] lemma advanceAll_cons :
    c.advanceAll (i :: is) = (c.advance i).bind fun c' => c'.advanceAll is := by
  simp [advanceAll, List.foldlM_cons]

lemma advanceAll_append {js : List α} :
    c.advanceAll (is ++ js) = (c.advanceAll is).bind fun c' => c'.advanceAll js := by
  simp [advanceAll]

/-- The two ways in which a cursor moves. -/
lemma advance_cases (h : c.advance i = some c') :
    (c.bound < i ∧ c' = ⟨i, []⟩) ∨
      (i ≤ c.bound ∧ ∃ pre post, i ∉ pre ∧ c.skips = pre ++ i :: post ∧ c' = ⟨c.bound, post⟩) := by
  rw [advance] at h
  split at h
  · exact Or.inl ⟨‹_›, (Option.some.inj h).symm⟩
  · rename_i hlt
    obtain ⟨post, hpost, rfl⟩ := Option.map_eq_some_iff.mp h
    obtain ⟨pre, hpre, hskips⟩ := dropThrough_eq_some.mp hpost
    exact Or.inr ⟨not_lt.mp hlt, pre, post, hpre, hskips, rfl⟩

/-- A cursor moves exactly to the positions ahead of it. -/
lemma advance_isSome : (∃ c', c.advance i = some c') ↔ c.Ahead i := by
  rw [advance, Ahead]
  by_cases h : c.bound < i
  · simp [h]
  · rw [if_neg h, or_iff_right h, ← dropThrough_isSome]
    constructor
    · rintro ⟨c', hc'⟩
      obtain ⟨l', hl', -⟩ := Option.map_eq_some_iff.mp hc'
      exact ⟨l', hl'⟩
    · rintro ⟨l', hl'⟩
      exact ⟨_, Option.map_eq_some_iff.mpr ⟨l', hl', rfl⟩⟩

/-- A move never puts a position ahead that was not. -/
lemma Ahead.of_advance (h : c.advance i = some c') (hj : c'.Ahead j) : c.Ahead j := by
  rcases advance_cases h with ⟨hlt, rfl⟩ | ⟨-, pre, post, -, hskips, rfl⟩
  · rcases hj with hj | hj
    · exact Or.inl (hlt.trans hj)
    · simp at hj
  · rcases hj with hj | hj
    · exact Or.inl hj
    · exact Or.inr (by simp [hskips, show j ∈ post from hj])

lemma Ordered.of_advance (hc : c.Ordered) (h : c.advance i = some c') : c'.Ordered := by
  rcases advance_cases h with ⟨-, rfl⟩ | ⟨-, pre, post, -, hskips, rfl⟩
  · simp [Ordered]
  · rw [Ordered, hskips] at hc
    exact (List.pairwise_cons.mp (List.pairwise_append.mp hc).2.1).2

/-- After a move of an ordered cursor, what is ahead is what was ahead and lies above
the position moved to. -/
lemma ahead_advance (hc : c.Ordered) (h : c.advance i = some c') :
    c'.Ahead j ↔ c.Ahead j ∧ i < j := by
  rcases advance_cases h with ⟨hlt, rfl⟩ | ⟨hle, pre, post, -, hskips, rfl⟩
  · constructor
    · rintro (hj | hj)
      · exact ⟨Or.inl (hlt.trans hj), hj⟩
      · simp at hj
    · exact fun hj => Or.inl hj.2
  · rw [Ordered, hskips] at hc
    obtain ⟨-, hpost, hpre⟩ := List.pairwise_append.mp hc
    obtain ⟨hpost, -⟩ := List.pairwise_cons.mp hpost
    simp only [Ahead, hskips, List.mem_append, List.mem_cons]
    constructor
    · rintro (hj | hj)
      · exact ⟨Or.inl hj, hle.trans_lt hj⟩
      · exact ⟨Or.inr (Or.inr (Or.inr hj)), hpost j hj⟩
    · -- of the skips only those after the position are above it
      rintro ⟨hj | hj | rfl | hj, hij⟩
      · exact Or.inl hj
      · exact absurd hij (hpre j hj i (by simp)).asymm
      · exact absurd hij (lt_irrefl _)
      · exact Or.inr hj

/-- Whatever the skips are, a cursor only ever reaches positions that were ahead of it
at the start. -/
lemma ahead_of_mem_advanceAll (h : c.advanceAll is = some c') : ∀ i ∈ is, c.Ahead i := by
  induction is generalizing c with
  | nil => simp
  | cons i is ih =>
    obtain ⟨c₁, h₁, h₂⟩ := Option.bind_eq_some_iff.mp (by simpa using h)
    intro j hj
    rcases List.mem_cons.mp hj with rfl | hj
    · exact advance_isSome.mp ⟨c₁, h₁⟩
    · exact (ih h₂ j hj).of_advance h₁

/-- The lists through which an ordered cursor can be moved. -/
theorem advanceAll_isSome_iff (hc : c.Ordered) :
    (∃ c', c.advanceAll is = some c') ↔ is.Pairwise (· < ·) ∧ ∀ i ∈ is, c.Ahead i := by
  induction is generalizing c with
  | nil => simp
  | cons i is ih =>
    simp only [advanceAll_cons, Option.bind_eq_some_iff, List.pairwise_cons,
      List.forall_mem_cons]
    constructor
    · rintro ⟨c', c₁, h₁, h₂⟩
      obtain ⟨hsort, hahead⟩ := (ih (hc.of_advance h₁)).mp ⟨c', h₂⟩
      have hall : ∀ j ∈ is, c.Ahead j ∧ i < j := fun j hj =>
        (ahead_advance hc h₁).mp (hahead j hj)
      exact ⟨⟨fun j hj => (hall j hj).2, hsort⟩, advance_isSome.mp ⟨c₁, h₁⟩,
        fun j hj => (hall j hj).1⟩
    · rintro ⟨⟨hlt, hsort⟩, hi, hahead⟩
      obtain ⟨c₁, h₁⟩ := advance_isSome.mpr hi
      obtain ⟨c', h₂⟩ := (ih (hc.of_advance h₁)).mpr
        ⟨hsort, fun j hj => (ahead_advance hc h₁).mpr ⟨hahead j hj, hlt j hj⟩⟩
      exact ⟨c', c₁, h₁, h₂⟩

end Cursor

end Lib
