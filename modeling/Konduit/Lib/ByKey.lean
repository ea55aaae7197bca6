import Mathlib.Order.Lattice
import Mathlib.Tactic.Common

/-!
# The greatest element by a key

Of the elements with the greatest key the last one is taken, as by an iterator that keeps the later
of two equal ones (`maxByKey_eq_some_iff`).
-/

namespace Lib

variable {α β : Type*}

/-- The last of the elements with the greatest key. -/
def maxByKey [LT β] [DecidableLT β] (key : α → β) : List α → Option α
  | [] => none
  | x :: xs => some (xs.foldl (fun x y => if key y < key x then x else y) x)

section Lemmas

variable [LinearOrder β] {key : α → β} {xs : List α} {x : α}

@[simp] lemma maxByKey_nil : maxByKey key [] = none := rfl

/-- The greatest so far is the last of its key, and stays ahead of what it was compared with. -/
lemma foldl_maxByKey (key : α → β) (x : α) (xs : List α) :
    ∃ before y after, x :: xs = before ++ y :: after ∧
      xs.foldl (fun x y => if key y < key x then x else y) x = y ∧
        (∀ z ∈ before, key z ≤ key y) ∧ ∀ z ∈ after, key z < key y := by
  induction xs generalizing x with
  | nil => exact ⟨[], x, [], rfl, rfl, by simp, by simp⟩
  | cons x' xs ih =>
    rw [List.foldl_cons]
    split_ifs with hlt
    · -- the first one stays: the next is behind whatever comes out
      obtain ⟨before, y, after, hsplit, hfold, hbefore, hafter⟩ := ih x
      cases before with
      | nil =>
        obtain ⟨rfl, rfl⟩ := List.cons_eq_cons.mp hsplit
        exact ⟨[], x, x' :: xs, rfl, hfold, by simp, List.forall_mem_cons.mpr ⟨hlt, hafter⟩⟩
      | cons b before =>
        rw [List.cons_append, List.cons_eq_cons] at hsplit
        obtain ⟨rfl, rfl⟩ := hsplit
        obtain ⟨hx, hbefore⟩ := List.forall_mem_cons.mp hbefore
        refine ⟨x :: x' :: before, y, after, rfl, hfold, ?_, hafter⟩
        exact List.forall_mem_cons.mpr ⟨hx, List.forall_mem_cons.mpr ⟨hlt.le.trans hx, hbefore⟩⟩
    · obtain ⟨before, y, after, hsplit, hfold, hbefore, hafter⟩ := ih x'
      refine ⟨x :: before, y, after, ?_, hfold, ?_, hafter⟩
      · rw [hsplit, List.cons_append]
      · refine List.forall_mem_cons.mpr ⟨(not_lt.mp hlt).trans ?_, hbefore⟩
        have hmem : x' ∈ before ++ y :: after := hsplit ▸ List.mem_cons_self
        rcases List.mem_append.mp hmem with hmem | hmem
        · exact hbefore x' hmem
        · rcases List.mem_cons.mp hmem with rfl | hmem
          · exact le_rfl
          · exact (hafter x' hmem).le

/-- What is taken: none before it has a greater key, and all after it have a smaller one. -/
theorem maxByKey_eq_some (h : maxByKey key xs = some x) :
    ∃ before after, xs = before ++ x :: after ∧
      (∀ y ∈ before, key y ≤ key x) ∧ ∀ y ∈ after, key y < key x := by
  cases xs with
  | nil => simp at h
  | cons first xs =>
    obtain ⟨before, y, after, hsplit, hfold, hbefore, hafter⟩ := foldl_maxByKey key first xs
    obtain rfl : y = x := hfold.symm.trans (Option.some.inj h)
    exact ⟨before, after, hsplit, hbefore, hafter⟩

lemma mem_of_maxByKey (h : maxByKey key xs = some x) : x ∈ xs := by
  obtain ⟨before, after, rfl, -⟩ := maxByKey_eq_some h
  simp

lemma le_of_maxByKey (h : maxByKey key xs = some x) {y : α} (hy : y ∈ xs) : key y ≤ key x := by
  obtain ⟨before, after, rfl, hbefore, hafter⟩ := maxByKey_eq_some h
  rcases List.mem_append.mp hy with hy | hy
  · exact hbefore y hy
  · rcases List.mem_cons.mp hy with rfl | hy
    · exact le_rfl
    · exact (hafter y hy).le

lemma exists_maxByKey (key : α → β) (h : xs ≠ []) : ∃ x, maxByKey key xs = some x := by
  cases xs with
  | nil => exact absurd rfl h
  | cons x xs => exact ⟨_, rfl⟩

/-- There is one such element. -/
theorem maxByKey_eq_some_iff : maxByKey key xs = some x ↔
    ∃ before after, xs = before ++ x :: after ∧
      (∀ y ∈ before, key y ≤ key x) ∧ ∀ y ∈ after, key y < key x := by
  refine ⟨maxByKey_eq_some, ?_⟩
  rintro ⟨before, after, rfl, hbefore, hafter⟩
  obtain ⟨y, hy⟩ := @exists_maxByKey _ _ _ (before ++ x :: after) key (by simp)
  obtain ⟨before', after', hsplit, hbefore', hafter'⟩ := maxByKey_eq_some hy
  rw [hy]
  rcases List.append_eq_append_iff.mp hsplit with ⟨mid, hmid, hrest⟩ | ⟨mid, hmid, hrest⟩
  · cases mid with
    | nil => exact congrArg some (List.cons_eq_cons.mp hrest).1.symm
    | cons m mid =>
      -- the one that is taken would come after
      rw [List.cons_append, List.cons_eq_cons] at hrest
      obtain ⟨rfl, rfl⟩ := hrest
      have hle : key x ≤ key y := hbefore' x (hmid ▸ by simp)
      exact absurd (hafter y (by simp)) hle.not_gt
  · cases mid with
    | nil => exact congrArg some (List.cons_eq_cons.mp hrest).1
    | cons m mid =>
      rw [List.cons_append, List.cons_eq_cons] at hrest
      obtain ⟨rfl, rfl⟩ := hrest
      have hle : key y ≤ key x := hbefore y (hmid ▸ by simp)
      exact absurd (hafter' x (by simp)) hle.not_gt

end Lemmas

end Lib
