import Konduit.Kernel.Coverage

/-!
# A batch of channels in one transaction

How a transaction has to be laid out for main to accept it, when each of its steps is
accepted on its own: the continuing outputs stand in front, in the order of the inputs, and
every one is at the address of its input.  Main then has no choice in what it verifies
(`Main.Checks.unique`).
-/

open Lib

namespace Konduit.Kernel

variable {crypto : Crypto} {ownHash : ScriptHash} {tx : Transaction}
  {redeemers : OutputReference → Redeemer} {vs vs' : List Verified}

/-! ### Who signs -/

/-- The steps that the adaptor signs. -/
def Step.isAdaptor : Step → Bool
  | .stepCont (.sub _ _) | .stepCont (.respond _ _) | .stepCont (.unlock _) => true
  | _ => false

/-- The key that must sign for a step. -/
def Step.signer (step : Step) (constants : Constants) : VerificationKey :=
  if step.isAdaptor then constants.subVkey else constants.addVkey

lemma vkey_of_cont {bounds : Bounds} {constants : Constants} {valueIn valueOut : Value}
    {stageIn stageOut : Stage} {step : Cont} {vkey : VerificationKey}
    (h : cont crypto bounds constants valueIn stageIn valueOut stageOut step = some vkey) :
    vkey = (Step.stepCont step).signer constants := by
  cases step with
  | add => exact (Add.do_eq_some.mp h).2.2
  | sub squash unlockeds =>
    obtain ⟨_, _, _, _, rfl, rfl⟩ := Sub.stages_of_do h
    exact (Sub.do_eq_some.mp h).2.2
  | close => exact (Close.do_eq_some.mp h).2.2
  | respond squash cheques =>
    obtain ⟨subbed, useds, elapseAt, pAmount, pends, rfl, rfl⟩ := Respond.stages_of_do h
    change Respond.do crypto bounds.upper constants valueIn (.closed subbed useds elapseAt) valueOut
      (.responded pAmount pends) squash cheques = some vkey at h
    obtain ⟨_, _, -, -, -, rfl⟩ := Respond.do_some.mp h
    rfl
  | unlock unpends =>
    obtain ⟨_, _, _, _, rfl, rfl⟩ := Unlock.stages_of_do h
    exact (Unlock.do_eq_some.mp h).2.2.2.2.2
  | expire unpends =>
    obtain ⟨_, _, _, _, rfl, rfl⟩ := Expire.stages_of_do h
    exact (Expire.do_eq_some.mp h).2.2.2.2.2

lemma vkey_of_eol {bounds : Bounds} {constants : Constants} {stageIn : Stage} {step : Eol}
    {vkey : VerificationKey} (h : eol bounds constants stageIn step = some vkey) :
    vkey = (Step.stepEol step).signer constants := by
  cases step with
  | elapse => exact (Elapse.do_eq_some.mp h).2
  | «end» =>
    cases stageIn with
    | responded pendsAmount pends =>
      change End.do bounds.lower constants (.responded pendsAmount pends) = some vkey at h
      exact (End.do_eq_some.mp h).2
    | opened | closed => cases h

namespace Verified

/-- The channel of a verified input has a datum of the script. -/
lemma Valid.channel {v : Verified} {bounds : Bounds} (h : v.Valid crypto ownHash bounds) :
    ∃ constants stage, v.input.output.channel = some ⟨ownHash, constants, stage⟩ := by
  obtain ⟨constants, stage, hchannel, -⟩ := h
  exact ⟨constants, stage, hchannel⟩

/-- Just the steps that are not the last one have a continuing output. -/
lemma Valid.output_cases {v : Verified} {bounds : Bounds} (h : v.Valid crypto ownHash bounds) :
    (∃ step output, v.step = .stepCont step ∧ v.output = some output) ∨
      ∃ step, v.step = .stepEol step ∧ v.output = none := by
  obtain ⟨input, step, output, vkey⟩ := v
  obtain ⟨_, _, -, h⟩ := h
  cases step with
  | stepCont step =>
    cases output with
    | none => exact absurd h id
    | some output => exact Or.inl ⟨step, output, rfl, rfl⟩
  | stepEol step =>
    cases output with
    | none => exact Or.inr ⟨step, rfl, rfl⟩
    | some output => exact absurd h id

/-- The continuing output carries on the channel at its address. -/
lemma Valid.continues {v : Verified} {bounds : Bounds} (h : v.Valid crypto ownHash bounds)
    {output : Output} (houtput : v.output = some output) :
    ∃ constants stage,
      Continues ownHash v.input.output.address constants stage output := by
  have hcases := h.output_cases
  obtain ⟨constants, _, -, h⟩ := h
  rcases hcases with ⟨step, output', hstep, houtput'⟩ | ⟨step, -, hnone⟩
  · obtain rfl := Option.some.inj (houtput.symm.trans houtput')
    rw [hstep, houtput] at h
    obtain ⟨stage, hcontinues, -⟩ := h
    exact ⟨constants, stage, hcontinues⟩
  · rw [houtput] at hnone
    cases hnone

/-- The key is that of the step. -/
lemma Valid.vkey_eq {v : Verified} {bounds : Bounds} (h : v.Valid crypto ownHash bounds)
    {constants : Constants} {stage : Stage}
    (hchannel : v.input.output.channel = some ⟨ownHash, constants, stage⟩) :
    v.vkey = v.step.signer constants := by
  have hcases := h.output_cases
  obtain ⟨constants', stage', hchannel', h⟩ := h
  obtain ⟨-, rfl, -⟩ := Datum.mk.inj (Option.some.inj (hchannel.symm.trans hchannel'))
  rcases hcases with ⟨step, output, hstep, houtput⟩ | ⟨step, hstep, houtput⟩
  · rw [hstep, houtput] at h
    obtain ⟨_, -, h⟩ := h
    rw [hstep]
    exact vkey_of_cont h
  · rw [hstep, houtput] at h
    rw [hstep]
    exact vkey_of_eol h

end Verified

/-! ### What main verifies is determined -/

/-- Two batches of the same steps on the same inputs that find their outputs in the same list
are the same. -/
lemma eq_of_picks {bounds : Bounds} {l rest rest' : List Output}
    (hinputs : vs.map Verified.input = vs'.map Verified.input)
    (hsteps : vs.map Verified.step = vs'.map Verified.step)
    (hvalid : ∀ v ∈ vs, v.Valid crypto ownHash bounds)
    (hvalid' : ∀ v ∈ vs', v.Valid crypto ownHash bounds)
    (hpicks : Picks l (vs.filterMap Verified.search) rest)
    (hpicks' : Picks l (vs'.filterMap Verified.search) rest') : vs = vs' := by
  induction vs generalizing vs' l with
  | nil => exact (List.map_eq_nil_iff.mp hinputs.symm).symm
  | cons v vs ih =>
    rcases vs' with _ | ⟨w, ws⟩
    · simp at hinputs
    simp only [List.map_cons, List.cons.injEq] at hinputs hsteps
    obtain ⟨hinput, hinputs⟩ := hinputs
    obtain ⟨hstep, hsteps⟩ := hsteps
    obtain ⟨hv, hvs⟩ := List.forall_mem_cons.mp hvalid
    obtain ⟨hw, hws⟩ := List.forall_mem_cons.mp hvalid'
    rw [Verified.filterMap_search_cons] at hpicks hpicks'
    obtain ⟨behind, hpick, hpicks⟩ := Picks.append_iff.mp hpicks
    obtain ⟨behind', hpick', hpicks'⟩ := Picks.append_iff.mp hpicks'
    -- both search from the same address, or do not search
    have houtput : v.output = w.output ∧ behind = behind' := by
      rcases hv.output_cases with ⟨step, output, hvstep, hvout⟩ | ⟨step, hvstep, hvout⟩ <;>
        rcases hw.output_cases with ⟨step', output', hwstep, hwout⟩ | ⟨step', hwstep, hwout⟩
      · simp only [Verified.search, hvout, hwout, Option.map_some, Option.toList_some,
          Picks.cons_iff, Picks.nil_iff, hinput] at hpick hpick'
        obtain ⟨_, hsearch, rfl⟩ := hpick
        obtain ⟨_, hsearch', rfl⟩ := hpick'
        obtain ⟨rfl, rfl⟩ := Prod.mk.inj (Option.some.inj (hsearch.symm.trans hsearch'))
        exact ⟨hvout.trans hwout.symm, rfl⟩
      · rw [hvstep, hwstep] at hstep
        cases hstep
      · rw [hvstep, hwstep] at hstep
        cases hstep
      · simp only [Verified.search, hvout, hwout, Option.map_none, Option.toList_none,
          Picks.nil_iff] at hpick hpick'
        exact ⟨hvout.trans hwout.symm, hpick.symm.trans hpick'⟩
    obtain ⟨houtput, rfl⟩ := houtput
    obtain ⟨constants, stage, hchannel⟩ := hv.channel
    have hvkey : v.vkey = w.vkey := by
      rw [hv.vkey_eq hchannel, hw.vkey_eq (hinput ▸ hchannel), hstep]
    have heq : v = w := by
      obtain ⟨_, _, _, _⟩ := v
      obtain ⟨_, _, _, _⟩ := w
      exact (Verified.mk.injEq _ _ _ _ _ _ _ _).mpr ⟨hinput, hstep, houtput, hvkey⟩
    rw [heq, ih hinputs hsteps hvs hws hpicks hpicks']

lemma Main.Checks.unique {steps : List Step} (h : Checks crypto ownHash steps tx vs)
    (h' : Checks crypto ownHash steps tx vs') : vs = vs' := by
  obtain ⟨_, hpicks⟩ := h.outputs
  obtain ⟨_, hpicks'⟩ := h'.outputs
  exact eq_of_picks (h.inputs.trans h'.inputs.symm) (h.steps.trans h'.steps.symm) h.valid h'.valid
    hpicks hpicks'

/-! ### How a batch is laid out -/

/-- The batch stands in the transaction as main takes it: all inputs at the script, in order,
the continuing outputs in front, and the keys among the required signatories. -/
structure LaidOut (crypto : Crypto) (ownHash : ScriptHash) (tx : Transaction)
    (vs : List Verified) : Prop where
  inputs : vs.map Verified.input = tx.inputs.filter (Input.atScript ownHash)
  outputs : ∃ rest, tx.outputs = vs.filterMap Verified.output ++ rest
  signed : ∀ v ∈ vs, (crypto.blake2b224 v.vkey).1 ∈ tx.extraSignatories

/-- A batch that is laid out is what main verifies, if each step is accepted on its own. -/
lemma LaidOut.checks (h : LaidOut crypto ownHash tx vs)
    (hvalid : ∀ v ∈ vs, v.Valid crypto ownHash tx.validityRange) :
    Main.Checks crypto ownHash (vs.map Verified.step) tx vs := by
  refine ⟨rfl, h.inputs, hvalid, ?_, h.signed⟩
  obtain ⟨rest, houtputs⟩ := h.outputs
  refine ⟨rest, ?_⟩
  rw [houtputs, ← Verified.map_snd_search]
  refine Picks.gapless fun x hx => ?_
  obtain ⟨v, hv, hsearch⟩ := List.mem_filterMap.mp hx
  obtain ⟨output, houtput, rfl⟩ := Option.map_eq_some_iff.mp hsearch
  obtain ⟨_, _, hcontinues⟩ := (hvalid v hv).continues houtput
  simp [Output.atAddress, hcontinues.address]

/-- What main finds stands in the transaction. -/
lemma Main.Checks.mem_outputs {steps : List Step} (h : Checks crypto ownHash steps tx vs)
    {v : Verified} (hv : v ∈ vs) {output : Output} (houtput : v.output = some output) :
    output ∈ tx.outputs := by
  obtain ⟨_, hpicks⟩ := h.outputs
  have hsublist := hpicks.sublist
  rw [Verified.map_snd_search] at hsublist
  exact hsublist.subset (List.mem_filterMap.mpr ⟨v, hv, houtput⟩)

/-! ### Redeemers -/

/-- The redeemers of a batch: the first input carries all steps, and the others defer. -/
def batchRedeemers : List Step → List Redeemer
  | [] => []
  | step :: steps => .main (step :: steps) :: steps.map fun _ => .defer

/-- On a channel the validator is handed the datum that is read off the output. -/
lemma konduit_of_channel {input : Input} {datum : Datum} {redeemer : Redeemer}
    {oref : OutputReference} (h : input.output.channel = some datum) :
    konduit crypto (tx.datumOf input.output) redeemer oref tx =
      spend crypto datum redeemer oref tx := by
  rw [Output.channel, coerceDatum.eq_def] at h
  split at h
  · rename_i data hinline
    simp only [konduit, Transaction.datumOf, hinline, Option.bind_eq_bind, Option.bind_some, h]
  · cases h

lemma getOwnHash_of_channel {output : Output} {datum : Datum} (h : output.channel = some datum) :
    Defer.getOwnHash output.datum = some datum.ownHash := by
  rw [Output.channel, coerceDatum.eq_def] at h
  split at h
  · rename_i data hinline
    rw [Datum.ofData.eq_def] at h
    split at h
    · simp only [Option.bind_eq_bind, Option.bind_eq_some_iff, Option.pure_def,
        Option.some.injEq] at h
      obtain ⟨_, -, _, -, rfl⟩ := h
      rw [hinline, Defer.getOwnHash]
    · cases h
  · cases h

/-- Main is expected on the first of the inputs at the script. -/
lemma mainOref_of_filter {inputs rest : List Input} {first : Input} {constants : Constants}
    {stage : Stage} (h : inputs.filter (Input.atScript ownHash) = first :: rest)
    (hchannel : first.output.channel = some ⟨ownHash, constants, stage⟩) :
    Defer.mainOref (.script ownHash) inputs = some first.outputReference := by
  induction inputs with
  | nil => cases h
  | cons input inputs ih =>
    by_cases hat : input.output.address.paymentCredential = .script ownHash
    · rw [List.filter_cons_of_pos (by simp [Input.atScript, Output.atScript, hat])] at h
      obtain ⟨rfl, -⟩ := List.cons.inj h
      rw [Defer.mainOref, if_pos hat, getOwnHash_of_channel hchannel]
      simp [expect]
    · rw [List.filter_cons_of_neg (by simp [Input.atScript, Output.atScript, hat])] at h
      rw [Defer.mainOref, if_neg hat, ih h]

/-- With these redeemers the transaction validates when main accepts the steps: the others
only defer to it. -/
theorem validates_iff (hinputs : vs.map Verified.input = tx.inputs.filter (Input.atScript ownHash))
    (hchannel : ∀ v ∈ vs, ∃ constants stage,
      v.input.output.channel = some ⟨ownHash, constants, stage⟩)
    (hredeemers : (vs.map fun v => redeemers v.input.outputReference) =
      batchRedeemers (vs.map Verified.step)) :
    tx.Validates crypto ownHash redeemers ↔
      ∃ vs', Main.Checks crypto ownHash (vs.map Verified.step) tx vs' := by
  have hmem : ∀ {input}, (input ∈ tx.inputs ∧ input.atScript ownHash = true) ↔
      ∃ v ∈ vs, v.input = input := by
    intro input
    rw [← List.mem_filter, ← hinputs, List.mem_map]
  rcases vs with _ | ⟨first, rest⟩
  · constructor
    · exact fun _ => ⟨[], rfl, hinputs, by simp, ⟨tx.outputs, Picks.nil _⟩, by simp⟩
    · intro _ input hin hat
      obtain ⟨v, hv, -⟩ := hmem.mp ⟨hin, hat⟩
      cases hv
  · obtain ⟨hfirst, hrest⟩ := List.cons.inj hredeemers
    obtain ⟨constants, stage, hfirstChannel⟩ := hchannel first (by simp)
    have hmain : konduit crypto (tx.datumOf first.input.output)
        (redeemers first.input.outputReference) first.input.outputReference tx = some true ↔
          ∃ vs', Main.Checks crypto ownHash ((first :: rest).map Verified.step) tx vs' := by
      rw [konduit_of_channel hfirstChannel, show redeemers first.input.outputReference = _ from
        hfirst]
      exact Main.handle_eq_true
    rw [← hmain]
    constructor
    · intro h
      obtain ⟨hin, hat⟩ := hmem.mpr ⟨first, by simp, rfl⟩
      exact h first.input hin hat
    · intro h input hin hat
      obtain ⟨v, hv, rfl⟩ := hmem.mp ⟨hin, hat⟩
      rcases List.mem_cons.mp hv with rfl | hv
      · exact h
      · -- the others are behind the first one, which defer finds
        obtain ⟨constants', stage', hvChannel⟩ := hchannel v (by simp [hv])
        have hdefer : redeemers v.input.outputReference = .defer := by
          have : redeemers v.input.outputReference ∈
              (rest.map Verified.step).map fun _ => Redeemer.defer := by
            rw [← hrest]
            exact List.mem_map_of_mem hv
          obtain ⟨_, -, heq⟩ := List.mem_map.mp this
          exact heq.symm
        have hne : v.input.outputReference ≠ first.input.outputReference := by
          have hnodup := ((List.filter_sublist (p := Input.atScript ownHash)
            (l := tx.inputs)).map Input.outputReference).nodup tx.distinct
          rw [← hinputs, List.map_cons, List.map_cons] at hnodup
          intro heq
          refine (List.nodup_cons.mp hnodup).1 ?_
          rw [← heq, List.map_map]
          exact List.mem_map_of_mem hv
        rw [konduit_of_channel hvChannel, hdefer]
        change Defer.handle ⟨ownHash, constants', stage'⟩ v.input.outputReference tx = some true
        rw [Defer.handle, mainOref_of_filter hinputs.symm hfirstChannel, Option.bind_eq_bind,
          Option.bind_some, Option.pure_def, decide_eq_true hne]

end Konduit.Kernel
