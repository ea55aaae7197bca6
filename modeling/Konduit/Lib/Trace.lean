import Mathlib.Data.List.Basic
import Mathlib.Tactic.Common

/-!
# Runs of a labelled transition system

A run is a list of labels, one for each step taken.  What one step preserves, a whole run
preserves (`Trace.invariant`), also when the property looks at the history of the run, or when
only some labels preserve it (`Trace.invariant_of_prefix`).  What is said of each step of a run
may be exchanged for what says the same where an invariant holds (`Trace.eachStep_iff`).
-/

namespace Lib

variable {σ ℓ : Type*}

/-- `Trace step s ls s'`: from `s`, steps labelled `ls` lead to `s'`. -/
inductive Trace (step : σ → ℓ → σ → Prop) (s : σ) : List ℓ → σ → Prop
  | nil : Trace step s [] s
  | snoc {ls : List ℓ} {s₁ s₂ : σ} {l : ℓ} :
      Trace step s ls s₁ → step s₁ l s₂ → Trace step s (ls ++ [l]) s₂

namespace Trace

variable {step : σ → ℓ → σ → Prop} {s s' : σ} {ls : List ℓ}

/-- A property of the history and the state reached that holds at the start and is
preserved by every step holds after every run. -/
theorem invariant {P : List ℓ → σ → Prop} (h₀ : P [] s)
    (hstep : ∀ {ls s₁ l s₂}, Trace step s ls s₁ → P ls s₁ → step s₁ l s₂ → P (ls ++ [l]) s₂)
    (h : Trace step s ls s') : P ls s' := by
  induction h with
  | nil => exact h₀
  | snoc hrun hs ih => exact hstep hrun ih hs

/-- A property that every step preserves whose label is as it should be after its history
holds after every run of such steps. -/
theorem invariant_of_prefix {P : List ℓ → σ → Prop} {Q : List ℓ → ℓ → Prop} (h₀ : P [] s)
    (hstep : ∀ {ls s₁ l s₂}, P ls s₁ → Q ls l → step s₁ l s₂ → P (ls ++ [l]) s₂)
    (h : Trace step s ls s') (hQ : ∀ pre l, pre ++ [l] <+: ls → Q pre l) : P ls s' := by
  induction h with
  | nil => exact h₀
  | @snoc ls s₁ s₂ l _ hs ih =>
    have hprev := ih fun pre l' hpre => hQ pre l' (hpre.trans (List.prefix_append ls [l]))
    exact hstep hprev (hQ ls l (List.prefix_refl _)) hs

theorem invariant_of_forall {P : List ℓ → σ → Prop} {Q : ℓ → Prop} (h₀ : P [] s)
    (hstep : ∀ {ls s₁ l s₂}, P ls s₁ → Q l → step s₁ l s₂ → P (ls ++ [l]) s₂)
    (h : Trace step s ls s') (hQ : ∀ l ∈ ls, Q l) : P ls s' :=
  invariant_of_prefix (Q := fun _ l => Q l) h₀ hstep h fun _ l hpre =>
    hQ l (hpre.subset (by simp))

/-- Where a step is determined by its label, so is a run. -/
lemma unique (hstep : ∀ {s l s₁ s₂}, step s l s₁ → step s l s₂ → s₁ = s₂) {s₁ s₂ : σ}
    (h₁ : Trace step s ls s₁) (h₂ : Trace step s ls s₂) : s₁ = s₂ := by
  induction h₁ generalizing s₂ with
  | nil =>
    generalize hls : ([] : List ℓ) = ls at h₂
    cases h₂ with
    | nil => rfl
    | snoc _ _ => simp at hls
  | @snoc ls s₁ s₁' l _ hs ih =>
    generalize hls : ls ++ [l] = ls' at h₂
    cases h₂ with
    | nil => simp at hls
    | snoc hrun hs' =>
      obtain ⟨rfl, hl⟩ := List.append_inj' hls rfl
      obtain rfl := List.singleton_inj.mp hl
      obtain rfl := ih hrun
      exact hstep hs hs'

/-! ### Each step -/

/-- What holds of each step of the runs with these labels. -/
def EachStep (step : σ → ℓ → σ → Prop) (s : σ) (ls : List ℓ) (P : σ → ℓ → σ → Prop) : Prop :=
  ∀ before l after s₁ s₂, ls = before ++ l :: after → Trace step s before s₁ → step s₁ l s₂ →
    P s₁ l s₂

variable {I : σ → Prop} {P Q : σ → ℓ → σ → Prop}

/-- What each step preserves that is as it should be holds before every step. -/
lemma EachStep.invariant (h : EachStep step s ls P) (h₀ : I s)
    (hkeep : ∀ s₁ l s₂, I s₁ → step s₁ l s₂ → P s₁ l s₂ → I s₂) {before : List ℓ} {l : ℓ}
    {after : List ℓ} {s₁ : σ} (hls : ls = before ++ l :: after) (hrun : Trace step s before s₁) :
    I s₁ := by
  induction hrun generalizing l after with
  | nil => exact h₀
  | @snoc before s₁ s₂ l' hrun hs ih =>
    rw [List.append_assoc, List.singleton_append] at hls
    exact hkeep s₁ l' s₂ (ih hls) hs (h before l' _ s₁ s₂ hls hrun hs)

theorem eachStep_iff (h₀ : I s)
    (hiff : ∀ s₁ l s₂, I s₁ → step s₁ l s₂ → (P s₁ l s₂ ↔ Q s₁ l s₂))
    (hkeep : ∀ s₁ l s₂, I s₁ → step s₁ l s₂ → Q s₁ l s₂ → I s₂) :
    EachStep step s ls P ↔ EachStep step s ls Q := by
  constructor
  · intro h before l after s₁ s₂ hls hrun hs
    have hI : I s₁ := h.invariant h₀
      (fun s₁ l s₂ hI hs hP => hkeep s₁ l s₂ hI hs ((hiff s₁ l s₂ hI hs).mp hP)) hls hrun
    exact (hiff s₁ l s₂ hI hs).mp (h before l after s₁ s₂ hls hrun hs)
  · intro h before l after s₁ s₂ hls hrun hs
    exact (hiff s₁ l s₂ (h.invariant h₀ hkeep hls hrun) hs).mpr
      (h before l after s₁ s₂ hls hrun hs)

end Trace

end Lib
