import Mathlib.Tactic.Common

/-!
# Results of fallible steps

When a chain of steps in `Except` succeeds, and with what.
-/

namespace Lib.Result

variable {ε ε' α β : Type}

lemma bind_eq_ok {x : Except ε α} {f : α → Except ε β} {b : β} :
    (x >>= f) = .ok b ↔ ∃ a, x = .ok a ∧ f a = .ok b := by
  cases x with
  | error e => simp [bind, Except.bind]
  | ok a => simp [bind, Except.bind]

lemma bind_eq_error {x : Except ε α} {f : α → Except ε β} {e : ε} :
    (x >>= f) = .error e ↔ x = .error e ∨ ∃ a, x = .ok a ∧ f a = .error e := by
  cases x with
  | error e' => simp [bind, Except.bind]
  | ok a => simp [bind, Except.bind]

lemma pure_eq_ok {a b : α} : (pure a : Except ε α) = .ok b ↔ a = b := by
  simp [pure, Except.pure]

lemma mapError_eq_ok {x : Except ε α} {f : ε → ε'} {a : α} :
    x.mapError f = .ok a ↔ x = .ok a := by
  cases x <;> simp [Except.mapError]

lemma mapError_eq_error {x : Except ε α} {f : ε → ε'} {e : ε'} :
    x.mapError f = .error e ↔ ∃ e', x = .error e' ∧ f e' = e := by
  cases x <;> simp [Except.mapError]

lemma toOption_eq_some {x : Except ε α} {a : α} : x.toOption = some a ↔ x = .ok a := by
  cases x <;> simp [Except.toOption]

lemma throw_eq_ok {e : ε} {a : α} : (throw e : Except ε α) = .ok a ↔ False := by
  simp [throw, throwThe, MonadExceptOf.throw]

/-- What every step keeps, a chain of steps that succeeds keeps. -/
theorem foldlM_invariant {P : β → Prop} {f : β → α → Except ε β} {l : List α} {b b' : β}
    (hstep : ∀ b a b', P b → f b a = .ok b' → P b') (hb : P b) (h : l.foldlM f b = .ok b') :
    P b' := by
  induction l generalizing b with
  | nil =>
    obtain rfl := pure_eq_ok.mp h
    exact hb
  | cons a l ih =>
    rw [List.foldlM_cons, bind_eq_ok] at h
    obtain ⟨next, hnext, h⟩ := h
    exact ih (hstep b a next hb hnext) h

/-- When a step succeeds for all items, what there is comes from each of them. -/
lemma filterMap_of_mapM {f : α → Option (Option β)} {as : List α}
    {bs : List (Option β)} (h : as.mapM f = some bs) :
    bs.filterMap id = as.filterMap fun a => (f a).join := by
  induction as generalizing bs with
  | nil =>
    obtain rfl := Option.some.inj h
    rfl
  | cons a as ih =>
    simp only [List.mapM_cons, Option.bind_eq_bind, Option.bind_eq_some_iff, Option.pure_def,
      Option.some.injEq] at h
    obtain ⟨b, hb, bs, hbs, rfl⟩ := h
    rw [List.filterMap_cons, List.filterMap_cons, ih hbs, hb]
    rfl

lemma exists_eq_ok {x : Except ε α} (h : x.isOk) : ∃ a, x = .ok a := by
  cases x with
  | error e => cases h
  | ok a => exact ⟨a, rfl⟩

section Check

variable {p : Prop} [Decidable p] {a : α} {e : ε}

/-- A check succeeds with one result only. -/
lemma check_eq_ok : (if p then .ok a else .error e : Except ε α) = .ok a ↔ p := by
  split_ifs with h
  · exact iff_of_true rfl h
  · exact iff_of_false (by simp) h

lemma exists_check_eq_ok : (∃ b, (if p then .ok a else .error e : Except ε α) = .ok b) ↔ p := by
  split_ifs with h
  · exact iff_of_true ⟨a, rfl⟩ h
  · exact iff_of_false (by simp) h

end Check

end Lib.Result
