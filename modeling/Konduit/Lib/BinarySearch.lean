import Mathlib.Data.List.GetD
import Mathlib.Order.Compare
import Mathlib.Order.Lattice
import Mathlib.Tactic.Common

/-!
# Binary search

The search of a slice by halving, with a comparison at every step and no early exit.  The
comparison tells how the element at a position stands to the one that is sought.  On a
strictly increasing slice the search finds the element if it is there, and otherwise the
place where it belongs (`search_spec`).
-/

namespace Lib.BinarySearch

/-- Halve the part of `size` elements from `base`; the fuel bounds the number of rounds. -/
def loop (f : ℕ → Ordering) : ℕ → ℕ → ℕ → ℕ
  | 0, base, _ => base
  | fuel + 1, base, size =>
    if size ≤ 1 then base
    else
      let half := size / 2
      let mid := base + half
      loop f fuel (if f mid = .gt then base else mid) (size - half)

/-- The position of the element, or else the position to insert it at. -/
def search (f : ℕ → Ordering) (n : ℕ) : Except ℕ ℕ :=
  if n = 0 then .error 0
  else
    let base := loop f n 0 n
    match f base with
    | .eq => .ok base
    | .lt => .error (base + 1)
    | .gt => .error base

/-- Before a position that is not above the sought element, all are below it. -/
def Increasing (f : ℕ → Ordering) (n : ℕ) : Prop :=
  ∀ i j, i < j → j < n → f j ≠ .gt → f i = .lt

variable {f : ℕ → Ordering} {n : ℕ}

/-- The loop ends at the last position that is not above the sought element, or at the
first position. -/
lemma loop_spec (hf : Increasing f n) (fuel : ℕ) {base size : ℕ} (hfuel : size ≤ fuel + 1)
    (hsize : 0 < size) (hle : base + size ≤ n) (hbase : base = 0 ∨ f base ≠ .gt)
    (habove : ∀ j, base + size ≤ j → j < n → f j = .gt) :
    loop f fuel base size < n ∧ (loop f fuel base size = 0 ∨ f (loop f fuel base size) ≠ .gt) ∧
      ∀ j, loop f fuel base size < j → j < n → f j = .gt := by
  induction fuel generalizing base size with
  | zero =>
    simp only [loop]
    exact ⟨by omega, hbase, fun j hj => habove j (by omega)⟩
  | succ fuel ih =>
    simp only [loop]
    split_ifs with hone hgt
    · exact ⟨by omega, hbase, fun j hj => habove j (by omega)⟩
    · -- the upper half is above the sought element
      refine ih (by omega) (by omega) (by omega) hbase fun j hj hjn => ?_
      rcases Nat.lt_or_ge (base + size / 2) j with hmid | hmid
      · by_contra hne
        exact absurd (hgt ▸ hf _ j hmid hjn hne) (by decide)
      · obtain rfl : j = base + size / 2 := by omega
        exact hgt
    · exact ih (by omega) (by omega) (by omega) (Or.inr hgt) fun j hj => habove j (by omega)

/-- The loop stays within its part, whatever the comparison tells. -/
lemma loop_lt (f : ℕ → Ordering) (fuel : ℕ) {base size : ℕ} (hsize : 0 < size) :
    loop f fuel base size < base + size := by
  induction fuel generalizing base size with
  | zero =>
    simp only [loop]
    omega
  | succ fuel ih =>
    simp only [loop]
    split_ifs with hone hgt
    · omega
    · have := @ih base (size - size / 2) (by omega)
      omega
    · have := @ih (base + size / 2) (size - size / 2) (by omega)
      omega

/-- What a search finds is there, on any slice. -/
lemma eq_of_search {i : ℕ} (h : search f n = .ok i) : i < n ∧ f i = .eq := by
  simp only [search] at h
  split_ifs at h with hn
  split at h
  · rename_i heq
    obtain rfl := Except.ok.inj h
    have hlt := @loop_lt f n 0 n (Nat.pos_of_ne_zero hn)
    exact ⟨by omega, heq⟩
  · exact absurd h (by simp)
  · exact absurd h (by simp)

/-- What a search returns on an increasing slice. -/
theorem search_spec (hf : Increasing f n) :
    (∃ i, search f n = .ok i ∧ i < n ∧ f i = .eq) ∨
      ∃ i, search f n = .error i ∧ i ≤ n ∧ (∀ j < i, f j = .lt) ∧
        ∀ j, i ≤ j → j < n → f j = .gt := by
  simp only [search]
  split_ifs with hn
  · exact Or.inr ⟨0, rfl, by omega, by omega, by omega⟩
  · obtain ⟨hlt, hbase, habove⟩ := loop_spec hf n (by omega) (Nat.pos_of_ne_zero hn) (by omega)
      (Or.inl rfl) (by omega : ∀ j, 0 + n ≤ j → j < n → f j = .gt)
    -- what the loop ends at splits the slice
    generalize loop f n 0 n = base at hlt hbase habove
    have hbelow : f base ≠ .gt → ∀ j < base, f j = .lt := fun hne j hj => hf j base hj hlt hne
    cases h : f base with
    | eq => exact Or.inl ⟨base, rfl, hlt, h⟩
    | lt =>
      refine Or.inr ⟨base + 1, rfl, hlt, fun j hj => ?_, fun j hj => habove j hj⟩
      rcases Nat.lt_succ_iff_lt_or_eq.mp hj with hj | rfl
      · exact hbelow (by simp [h]) j hj
      · exact h
    | gt =>
      obtain rfl : base = 0 := hbase.resolve_right (not_not.mpr h)
      refine Or.inr ⟨0, rfl, by omega, by omega, fun j _ hjn => ?_⟩
      rcases Nat.eq_zero_or_pos j with rfl | hj
      · exact h
      · exact habove j hj hjn

/-! ### Lists -/

variable {α : Type*} [LinearOrder α] {xs : List α} {x : α}

/-- Search a list. -/
def listSearch (xs : List α) (x : α) : Except ℕ ℕ :=
  search (fun i => compare (xs.getD i x) x) xs.length

lemma increasing_of_sorted (h : xs.Pairwise (· < ·)) (x : α) :
    Increasing (fun i => compare (xs.getD i x) x) xs.length := by
  intro i j hij hj hne
  have hi : i < xs.length := Nat.lt_trans hij hj
  have hlt : xs[i] < xs[j] := List.pairwise_iff_getElem.mp h i j hi hj hij
  simp only [List.getD_eq_getElem _ _ hi, List.getD_eq_getElem _ _ hj] at hne ⊢
  exact compare_lt_iff_lt.mpr (hlt.trans_le (not_lt.mp fun hgt => hne (compare_gt_iff_gt.mpr hgt)))

/-- What the search finds is an element, on any list. -/
lemma mem_of_listSearch {i : ℕ} (h : listSearch xs x = .ok i) : x ∈ xs := by
  obtain ⟨hlt, heq⟩ := eq_of_search h
  simp only [List.getD_eq_getElem _ _ hlt, compare_eq_iff_eq] at heq
  exact heq ▸ List.getElem_mem hlt

/-- On a sorted list the search finds an element at its position, and otherwise the
position that separates the smaller elements from the larger ones. -/
theorem listSearch_spec (h : xs.Pairwise (· < ·)) (x : α) :
    (∃ pre post, xs = pre ++ x :: post ∧ listSearch xs x = .ok pre.length) ∨
      ∃ pre post, xs = pre ++ post ∧ listSearch xs x = .error pre.length ∧
        (∀ y ∈ pre, y < x) ∧ ∀ y ∈ post, x < y := by
  rcases search_spec (increasing_of_sorted h x) with
    ⟨i, hi, hlt, heq⟩ | ⟨i, hi, hle, hbelow, habove⟩
  · left
    simp only [List.getD_eq_getElem _ _ hlt, compare_eq_iff_eq] at heq
    refine ⟨xs.take i, xs.drop (i + 1), ?_, ?_⟩
    · rw [← heq, List.getElem_cons_drop, List.take_append_drop]
    · rw [List.length_take, Nat.min_eq_left (Nat.le_of_lt hlt)]
      exact hi
  · right
    refine ⟨xs.take i, xs.drop i, (List.take_append_drop i xs).symm, ?_, ?_, ?_⟩
    · rw [List.length_take, Nat.min_eq_left hle]
      exact hi
    · intro y hy
      obtain ⟨j, hj, rfl⟩ := List.mem_take_iff_getElem.mp hy
      have hjn : j < xs.length := by omega
      have := hbelow j (by omega)
      simpa only [List.getD_eq_getElem _ _ hjn, compare_lt_iff_lt] using this
    · intro y hy
      obtain ⟨j, hj, rfl⟩ := List.mem_drop_iff_getElem.mp hy
      have := habove (i + j) (by omega) (by omega)
      simpa only [List.getD_eq_getElem _ _ (show i + j < xs.length by omega),
        compare_gt_iff_gt] using this

end Lib.BinarySearch
