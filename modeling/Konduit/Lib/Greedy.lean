import Mathlib.Algebra.GroupWithZero.Nat
import Mathlib.Algebra.Order.BigOperators.Group.List
import Mathlib.Data.List.Perm.Subperm
import Mathlib.Tactic.Common

/-!
# Largest first

From the front of a list elements are taken until they weigh enough.  Where the heaviest come first,
nothing shorter weighs as much (`weightOf_lt_of_length_lt`): there is no way to do with fewer, and
none of what is taken is superfluous.
-/

namespace Lib.Greedy

variable {α : Type*} (weight : α → ℕ)

/-- What the elements weigh together. -/
def weightOf (l : List α) : ℕ := (l.map weight).sum

/-- The elements up to the first at which they weigh enough; all of them if they never do. -/
def front : ℕ → List α → List α
  | _, [] => []
  | amount, a :: l => if amount ≤ weight a then [a] else a :: front (amount - weight a) l

variable {weight} {l s : List α} {amount : ℕ}

@[simp] lemma weightOf_nil : weightOf weight [] = 0 := rfl

@[simp] lemma weightOf_cons (a : α) (l : List α) :
    weightOf weight (a :: l) = weight a + weightOf weight l := rfl

lemma weightOf_perm (h : l.Perm s) : weightOf weight l = weightOf weight s := (h.map weight).sum_eq

lemma front_prefix (amount : ℕ) (l : List α) : front weight amount l <+: l := by
  induction l generalizing amount with
  | nil => exact List.prefix_rfl
  | cons a l ih =>
    rw [front]
    split_ifs
    · exact ⟨l, rfl⟩
    · exact (List.prefix_cons_inj a).mpr (ih _)

/-- What is taken weighs enough where all of it does. -/
lemma le_weightOf_front_iff :
    amount ≤ weightOf weight (front weight amount l) ↔ amount ≤ weightOf weight l := by
  induction l generalizing amount with
  | nil => rfl
  | cons a l ih =>
    rw [front, weightOf_cons]
    split_ifs with h
    · rw [weightOf_cons, weightOf_nil]
      omega
    · have hrest := @ih (amount - weight a)
      rw [weightOf_cons]
      omega

/-- Before the last one, what is taken does not weigh enough. -/
lemma weightOf_take_lt {n : ℕ} (hpos : 0 < amount) (h : n < (front weight amount l).length) :
    weightOf weight (l.take n) < amount := by
  induction l generalizing amount n with
  | nil => exact absurd h (Nat.not_lt_zero n)
  | cons a l ih =>
    cases n with
    | zero => exact hpos
    | succ n =>
      rw [front] at h
      split_ifs at h with hle
      · rw [List.length_singleton] at h
        omega
      · have hrest := @ih (amount - weight a) n (by omega) (Nat.lt_of_succ_lt_succ h)
        rw [List.take_succ_cons, weightOf_cons]
        omega

/-- One step further to the front, the elements weigh no less. -/
lemma weightOf_take_le_cons {a : α} (hl : (a :: l).Pairwise fun a b => weight b ≤ weight a)
    (n : ℕ) : weightOf weight (l.take n) ≤ weightOf weight ((a :: l).take n) := by
  induction n generalizing a l with
  | zero => exact le_rfl
  | succ n ih =>
    obtain ⟨ha, hl⟩ := List.pairwise_cons.mp hl
    cases l with
    | nil => exact Nat.zero_le _
    | cons b l =>
      rw [List.take_succ_cons, List.take_succ_cons, weightOf_cons, weightOf_cons]
      exact Nat.add_le_add (ha b List.mem_cons_self) (ih hl)

/-- Of as many elements, those at the front weigh the most. -/
lemma weightOf_le_take (hl : l.Pairwise fun a b => weight b ≤ weight a) (hs : s.Sublist l) :
    weightOf weight s ≤ weightOf weight (l.take s.length) := by
  induction hs with
  | slnil => exact le_rfl
  | cons a _ ih => exact (ih hl.of_cons).trans (weightOf_take_le_cons hl _)
  | cons_cons a _ ih =>
    rw [List.length_cons, List.take_succ_cons, weightOf_cons, weightOf_cons]
    exact Nat.add_le_add_left (ih hl.of_cons) _

/-- Whatever is shorter does not weigh enough, where the heaviest come first. -/
theorem weightOf_lt_of_length_lt (hl : l.Pairwise fun a b => weight b ≤ weight a)
    (hpos : 0 < amount) (hs : s.Subperm l) (h : s.length < (front weight amount l).length) :
    weightOf weight s < amount := by
  obtain ⟨s', hperm, hsub⟩ := hs
  rw [← weightOf_perm hperm]
  rw [← hperm.length_eq] at h
  exact (weightOf_le_take hl hsub).trans_lt (weightOf_take_lt hpos h)

end Lib.Greedy
