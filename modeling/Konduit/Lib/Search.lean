import Mathlib.Data.List.Basic
import Mathlib.Tactic.Common

/-!
# Searching a list, one element after another

A search skips what comes before the element it finds, and the next search goes on behind
that element.  So a sequence of searches finds elements at increasing positions
(`Picks.sublist`), and when all look for the same thing they find the first of its kind in
order and leave out none that comes before the last (`Picks.filter_eq`).
-/

namespace Lib

variable {α : Type*}

/-- The first element that a test accepts, with the list behind it. -/
def searchFor (p : α → Bool) : List α → Option (α × List α)
  | [] => none
  | a :: l => if p a then some (a, l) else searchFor p l

lemma searchFor_eq_some {p : α → Bool} {l rest : List α} {a : α} :
    searchFor p l = some (a, rest) ↔
      ∃ skipped, (∀ b ∈ skipped, p b = false) ∧ p a = true ∧ l = skipped ++ a :: rest := by
  induction l with
  | nil => simp [searchFor]
  | cons x l ih =>
    by_cases hx : p x = true
    · rw [searchFor, if_pos hx]
      constructor
      · intro h
        obtain ⟨rfl, rfl⟩ : x = a ∧ l = rest := by simpa using h
        exact ⟨[], by simp, hx, rfl⟩
      · rintro ⟨skipped, hskipped, ha, heq⟩
        rcases skipped with _ | ⟨y, skipped⟩
        · obtain ⟨rfl, rfl⟩ : x = a ∧ l = rest := by simpa using heq
          rfl
        · obtain ⟨rfl, -⟩ : x = y ∧ _ := by simpa using heq
          exact absurd hx (by simp [hskipped x (by simp)])
    · rw [searchFor, if_neg hx, ih]
      constructor
      · rintro ⟨skipped, hskipped, ha, rfl⟩
        refine ⟨x :: skipped, ?_, ha, rfl⟩
        exact List.forall_mem_cons.mpr ⟨by simpa using hx, hskipped⟩
      · rintro ⟨skipped, hskipped, ha, heq⟩
        rcases skipped with _ | ⟨y, skipped⟩
        · obtain ⟨rfl, -⟩ : x = a ∧ _ := by simpa using heq
          exact absurd ha hx
        · obtain ⟨rfl, rfl⟩ : x = y ∧ l = skipped ++ a :: rest := by simpa using heq
          exact ⟨skipped, fun b hb => hskipped b (by simp [hb]), ha, rfl⟩

/-- `Picks l found rest`: searches of `l`, one after another, each for the test beside it,
find the elements of `found` and leave `rest`. -/
inductive Picks : List α → List ((α → Bool) × α) → List α → Prop
  | nil (l : List α) : Picks l [] l
  | cons {p : α → Bool} {a : α} {l behind rest : List α} {found : List ((α → Bool) × α)} :
      searchFor p l = some (a, behind) → Picks behind found rest → Picks l ((p, a) :: found) rest

namespace Picks

variable {l rest : List α} {found : List ((α → Bool) × α)} {p : α → Bool}

@[simp] lemma nil_iff : Picks l [] rest ↔ l = rest := by
  constructor
  · rintro ⟨⟩
    rfl
  · rintro rfl
    exact nil l

lemma cons_iff {a : α} :
    Picks l ((p, a) :: found) rest ↔
      ∃ behind, searchFor p l = some (a, behind) ∧ Picks behind found rest := by
  constructor
  · rintro (_ | ⟨h, hrest⟩)
    exact ⟨_, h, hrest⟩
  · rintro ⟨behind, h, hrest⟩
    exact cons h hrest

/-- Searching for two lists of things is searching for one behind the other. -/
lemma append_iff {found' : List ((α → Bool) × α)} :
    Picks l (found ++ found') rest ↔ ∃ behind, Picks l found behind ∧ Picks behind found' rest := by
  induction found generalizing l with
  | nil => simp
  | cons x found ih =>
    rw [List.cons_append, cons_iff]
    constructor
    · rintro ⟨next, hsearch, hpicks⟩
      obtain ⟨behind, hpicks, hpicks'⟩ := ih.mp hpicks
      exact ⟨behind, cons hsearch hpicks, hpicks'⟩
    · rintro ⟨behind, hpicks, hpicks'⟩
      obtain ⟨next, hsearch, hpicks⟩ := cons_iff.mp hpicks
      exact ⟨next, hsearch, ih.mpr ⟨behind, hpicks, hpicks'⟩⟩

/-- What is found stands in the list at increasing positions, before the rest. -/
lemma sublist_append (h : Picks l found rest) : (found.map Prod.snd ++ rest).Sublist l := by
  induction h with
  | nil l => exact List.Sublist.refl l
  | cons h _ ih =>
    obtain ⟨skipped, -, -, rfl⟩ := searchFor_eq_some.mp h
    exact (ih.cons_cons _).trans (List.sublist_append_right skipped _)

lemma sublist (h : Picks l found rest) : (found.map Prod.snd).Sublist l :=
  (List.sublist_append_left _ rest).trans h.sublist_append

/-- A list that begins with what is searched for is picked without a gap. -/
lemma gapless (h : ∀ x ∈ found, x.1 x.2 = true) :
    Picks (found.map Prod.snd ++ rest) found rest := by
  induction found with
  | nil => exact nil rest
  | cons x found ih =>
    obtain ⟨hx, hfound⟩ := List.forall_mem_cons.mp h
    refine cons (searchFor_eq_some.mpr ⟨[], by simp, hx, rfl⟩) (ih hfound)

/-- Searches for one and the same thing find all of it, in order, as far as they go. -/
lemma filter_eq {as : List α} (h : Picks l (as.map fun a => (p, a)) rest) :
    l.filter p = as ++ rest.filter p := by
  induction as generalizing l with
  | nil =>
    obtain rfl := nil_iff.mp h
    rfl
  | cons a as ih =>
    obtain ⟨behind, hsearch, hrest⟩ := cons_iff.mp h
    obtain ⟨skipped, hskipped, ha, rfl⟩ := searchFor_eq_some.mp hsearch
    have hnone : skipped.filter p = [] := List.filter_eq_nil_iff.mpr fun b hb => by
      simp [hskipped b hb]
    rw [List.filter_append, hnone, List.nil_append, List.filter_cons_of_pos ha, ih hrest]
    rfl

/-- Searches for all of one thing leave none of it. -/
lemma filter (l : List α) (p : α → Bool) :
    ∃ rest, Picks l ((l.filter p).map fun a => (p, a)) rest ∧ rest.filter p = [] := by
  induction l with
  | nil => exact ⟨[], nil [], rfl⟩
  | cons x l ih =>
    obtain ⟨rest, hpicks, hnone⟩ := ih
    by_cases hx : p x = true
    · refine ⟨rest, ?_, hnone⟩
      rw [List.filter_cons_of_pos hx]
      exact cons (searchFor_eq_some.mpr ⟨[], by simp, hx, rfl⟩) hpicks
    · rw [List.filter_cons_of_neg hx]
      -- the first search skips the head as well
      rcases hl : l.filter p with _ | ⟨a, as⟩
      · exact ⟨x :: l, nil _, by rw [List.filter_cons_of_neg hx, hl]⟩
      · rw [hl] at hpicks
        obtain ⟨behind, hsearch, hrest⟩ := cons_iff.mp hpicks
        refine ⟨rest, cons ?_ hrest, hnone⟩
        rw [searchFor, if_neg hx, hsearch]

end Picks

end Lib
