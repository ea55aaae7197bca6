import Konduit.Kernel.Batch

/-!
# What main makes of a batch that is laid out

Main searches for a continuing output at the address of its input.  Where the outputs of a batch
stand in front, each at the address of its input, it finds each output in its turn, whether or not
the step is accepted; so it accepts the batch just when each step is accepted on its own
(`LaidOut.checks_iff`).
-/

open Lib

namespace Konduit.Kernel

/-- An input, its step and its output, put together as main would: just the steps that are not the
last one have an output, which is at the address of the input, and the key is that of the step. -/
structure Verified.Shaped (ownHash : ScriptHash) (v : Verified) : Prop where
  output_cases : (∃ step output, v.step = .stepCont step ∧ v.output = some output) ∨
    ∃ step, v.step = .stepEol step ∧ v.output = none
  address : ∀ output ∈ v.output, output.address = v.input.output.address
  channel : ∃ constants stage, v.input.output.channel = some ⟨ownHash, constants, stage⟩ ∧
    v.vkey = v.step.signer constants

section Layout

variable {crypto : Crypto} {ownHash : ScriptHash} {tx : Transaction} {bounds : Bounds}
  {vs vs' : List Verified} {rest rest' : List Output}

/-- What is found for the first input is what was put there for it. -/
lemma Verified.Shaped.found {v w : Verified} {outputs behind : List Output}
    (h : v.Shaped ownHash) (hw : w.Valid crypto ownHash bounds) (hinput : v.input = w.input)
    (hstep : v.step = w.step) (hpick : Picks (v.output.toList ++ outputs) w.search.toList behind) :
    v = w ∧ behind = outputs := by
  have houtput : v.output = w.output ∧ behind = outputs := by
    rcases h.output_cases with ⟨step, output, hvstep, hvout⟩ | ⟨step, hvstep, hvout⟩ <;>
      rcases hw.output_cases with ⟨step', output', hwstep, hwout⟩ | ⟨step', hwstep, hwout⟩
    · have hat : Output.atAddress w.input.output.address output = true := by
        rw [← hinput, ← h.address output hvout]
        simp [Output.atAddress]
      simp only [Verified.search, hvout, hwout, Option.map_some, Option.toList_some,
        List.singleton_append, Picks.cons_iff, Picks.nil_iff] at hpick
      obtain ⟨_, hsearch, rfl⟩ := hpick
      rw [searchFor, if_pos hat] at hsearch
      obtain ⟨rfl, rfl⟩ := Prod.mk.inj (Option.some.inj hsearch)
      exact ⟨hvout.trans hwout.symm, rfl⟩
    · rw [hvstep, hwstep] at hstep
      cases hstep
    · rw [hvstep, hwstep] at hstep
      cases hstep
    · simp only [Verified.search, hvout, hwout, Option.map_none, Option.toList_none,
        List.nil_append, Picks.nil_iff] at hpick
      exact ⟨hvout.trans hwout.symm, hpick.symm⟩
  obtain ⟨constants, stage, hchannel, hvkey⟩ := h.channel
  have hvkey : v.vkey = w.vkey := by
    rw [hvkey, hw.vkey_eq (hinput ▸ hchannel), hstep]
  refine ⟨?_, houtput.2⟩
  obtain ⟨_, _, _, _⟩ := v
  obtain ⟨_, _, _, _⟩ := w
  exact (Verified.mk.injEq _ _ _ _ _ _ _ _).mpr ⟨hinput, hstep, houtput.1, hvkey⟩

/-- Whatever main verifies of these steps and inputs is what was laid out. -/
lemma eq_of_shaped (hinputs : vs.map Verified.input = vs'.map Verified.input)
    (hsteps : vs.map Verified.step = vs'.map Verified.step)
    (hshaped : ∀ v ∈ vs, v.Shaped ownHash) (hvalid : ∀ v ∈ vs', v.Valid crypto ownHash bounds)
    (hpicks : Picks (vs.filterMap Verified.output ++ rest) (vs'.filterMap Verified.search) rest') :
    vs = vs' := by
  induction vs generalizing vs' with
  | nil => exact (List.map_eq_nil_iff.mp hinputs.symm).symm
  | cons v vs ih =>
    rcases vs' with _ | ⟨w, ws⟩
    · simp at hinputs
    simp only [List.map_cons, List.cons.injEq] at hinputs hsteps
    obtain ⟨hinput, hinputs⟩ := hinputs
    obtain ⟨hstep, hsteps⟩ := hsteps
    obtain ⟨hv, hvs⟩ := List.forall_mem_cons.mp hshaped
    obtain ⟨hw, hws⟩ := List.forall_mem_cons.mp hvalid
    rw [Verified.filterMap_search_cons] at hpicks
    obtain ⟨behind, hpick, hpicks⟩ := Picks.append_iff.mp hpicks
    have hfront : (v :: vs).filterMap Verified.output ++ rest =
        v.output.toList ++ (vs.filterMap Verified.output ++ rest) := by
      cases h : v.output with
      | none => rw [List.filterMap_cons_none h, Option.toList_none, List.nil_append]
      | some output => rw [List.filterMap_cons_some h, Option.toList_some]; rfl
    rw [hfront] at hpick
    obtain ⟨rfl, rfl⟩ := hv.found hw hinput hstep hpick
    rw [ih hinputs hsteps hvs hws hpicks]

/-- Main verifies nothing else of a batch that is laid out. -/
lemma LaidOut.eq_of_checks (h : LaidOut crypto ownHash tx vs)
    (hshaped : ∀ v ∈ vs, v.Shaped ownHash)
    (hchecks : Main.Checks crypto ownHash (vs.map Verified.step) tx vs') : vs' = vs := by
  obtain ⟨rest, houtputs⟩ := h.outputs
  obtain ⟨rest', hpicks⟩ := hchecks.outputs
  rw [houtputs] at hpicks
  exact (eq_of_shaped (h.inputs.trans hchecks.inputs.symm) hchecks.steps.symm hshaped
    hchecks.valid hpicks).symm

/-- Main accepts a batch that is laid out just when each step is accepted on its own. -/
theorem LaidOut.checks_iff (h : LaidOut crypto ownHash tx vs)
    (hshaped : ∀ v ∈ vs, v.Shaped ownHash) :
    (∃ vs', Main.Checks crypto ownHash (vs.map Verified.step) tx vs') ↔
      ∀ v ∈ vs, v.Valid crypto ownHash tx.validityRange := by
  constructor
  · rintro ⟨vs', hchecks⟩
    exact h.eq_of_checks hshaped hchecks ▸ hchecks.valid
  · exact fun hvalid => ⟨vs, h.checks hvalid⟩

end Layout

end Konduit.Kernel
