import Konduit.Kernel.Transaction
import Konduit.Lib.Search

/-!
# Spending channels in a transaction

Of the inputs at the script, the first carries the steps of all of them, and the others
defer to it; or a single channel is spent by mutual consent.  What the main invocation
checks is stated at the end, as one record for each input that it verifies
(`Main.handle_eq_true`).
-/

open Lib

namespace Konduit.Kernel

/-- A step of one channel, which goes on or ends. -/
inductive Step where
  | stepCont (step : Cont)
  | stepEol (step : Eol)

/-- What an input is spent by: the steps of the transaction, or a reference to the input that has
them. -/
inductive Redeemer where
  | defer
  | main (steps : List Step)
  | mutual

/-! ### Yielding inputs and outputs -/

/-- The next channel among the inputs. -/
def yieldIn (ownHash : ScriptHash) :
    List Input → Option (Address × Value × Constants × Stage × List Input)
  | [] => none
  | input :: inputs =>
    if input.output.address.paymentCredential = .script ownHash then do
      let datum ← coerceDatum input.output.datum
      expect (datum.ownHash = ownHash)
      return (input.output.address, input.output.value, datum.constants, datum.stage, inputs)
    else yieldIn ownHash inputs

/-- The next output at an address, which must carry on the channel. -/
def yieldOut (addressIn : Address) (constants : Constants) :
    List Output → Option (Value × Stage × List Output)
  | [] => none
  | output :: outputs =>
    if addressIn = output.address then
      match output.address.paymentCredential with
      | .verificationKey _ => none
      | .script ownHash => do
        let datum ← coerceDatum output.datum
        expect (datum.ownHash = ownHash)
        expect (datum.constants = constants)
        expect (output.referenceScript = none)
        return (output.value, datum.stage, outputs)
    else yieldOut addressIn constants outputs

/-- Insert into an increasing list, unless the item is there. -/
def orderedInsert : List Bytes → Bytes → List Bytes
  | [], item => [item]
  | x :: xs, item =>
    match compare x item with
    | .lt => x :: orderedInsert xs item
    | .eq => x :: xs
    | .gt => item :: x :: xs

/-! ### Main -/

namespace Main

/-- What the fold over the steps carries. -/
structure Acc where
  inputs : List Input
  outputs : List Output
  vkeys : List VerificationKey

/-- Verify the next channel input by a step. -/
def mkWith (crypto : Crypto) (ownHash : ScriptHash) (bounds : Bounds) (acc : Acc) (step : Step) :
    Option Acc := do
  let (address, valueIn, constants, stageIn, inputs) ← yieldIn ownHash acc.inputs
  match step with
  | .stepCont step => do
    let (valueOut, stageOut, outputs) ← yieldOut address constants acc.outputs
    let vkey ← cont crypto bounds constants valueIn stageIn valueOut stageOut step
    return ⟨inputs, outputs, orderedInsert acc.vkeys vkey⟩
  | .stepEol step => do
    let vkey ← eol bounds constants stageIn step
    return ⟨inputs, acc.outputs, orderedInsert acc.vkeys vkey⟩

/-- The main invocation: all steps are verified, their signatories are required, and no
channel is left over. -/
def handle (crypto : Crypto) (datum : Datum) (steps : List Step) (tx : Transaction) :
    Option Bool := do
  let ownHash := datum.ownHash
  let acc ← steps.foldlM (mkWith crypto ownHash tx.validityRange) ⟨tx.inputs, tx.outputs, []⟩
  expect (∀ vkey ∈ acc.vkeys, (crypto.blake2b224 vkey).1 ∈ tx.extraSignatories)
  return acc.inputs.all fun input => input.output.address.paymentCredential ≠ .script ownHash

end Main

/-! ### Defer -/

namespace Defer

/-- The script hash that a datum starts with. -/
def getOwnHash : OutputDatum → Option ScriptHash
  | .inlineDatum (.list [.bytes ownHash, _, _]) => some ownHash
  | _ => none

/-- The first input at a credential, which must name the credential as its own. -/
def mainOref (cred : Credential) : List Input → Option OutputReference
  | [] => none
  | input :: inputs =>
    if input.output.address.paymentCredential = cred then do
      let ownHash ← getOwnHash input.output.datum
      expect (.script ownHash = cred)
      return input.outputReference
    else mainOref cred inputs

/-- Another input is the main one; it verifies this one. -/
def handle (datum : Datum) (ownOref : OutputReference) (tx : Transaction) : Option Bool := do
  let oref ← mainOref (.script datum.ownHash) tx.inputs
  return ownOref ≠ oref

end Defer

/-! ### Mutual -/

namespace Mutual

/-- Both participants sign, and no other channel is spent. -/
def handle (crypto : Crypto) (datum : Datum) (ownOref : OutputReference) (tx : Transaction) :
    Option Bool := do
  expect ((crypto.blake2b224 datum.constants.addVkey).1 ∈ tx.extraSignatories)
  expect ((crypto.blake2b224 datum.constants.subVkey).1 ∈ tx.extraSignatories)
  let ownInput ← tx.inputs.find? fun i => i.outputReference = ownOref
  let ownCred := ownInput.output.address.paymentCredential
  return 1 = tx.inputs.countP fun i => i.output.address.paymentCredential = ownCred

end Mutual

/-! ### The validator -/

/-- The validator of one input. -/
def spend (crypto : Crypto) (datum : Datum) (redeemer : Redeemer) (ownOref : OutputReference)
    (tx : Transaction) : Option Bool :=
  match redeemer with
  | .defer => Defer.handle datum ownOref tx
  | .main steps => Main.handle crypto datum steps tx
  | .mutual => Mutual.handle crypto datum ownOref tx

/-- The validator: it fails on an input without a datum, or with one that is no channel. -/
def konduit (crypto : Crypto) (datum : Option Plutus.Data) (redeemer : Redeemer)
    (ownOref : OutputReference) (tx : Transaction) : Option Bool := do
  let datum ← datum
  let datum ← Datum.ofData datum
  spend crypto datum redeemer ownOref tx

/-- The validator succeeds on every input at the script. -/
def Transaction.Validates (tx : Transaction) (crypto : Crypto) (ownHash : ScriptHash)
    (redeemers : OutputReference → Redeemer) : Prop :=
  ∀ input ∈ tx.inputs, input.atScript ownHash = true →
    konduit crypto (tx.datumOf input.output) (redeemers input.outputReference)
      input.outputReference tx = some true

/-! ### What yielding finds -/

variable {crypto : Crypto} {ownHash : ScriptHash} {bounds : Bounds}

lemma yieldIn_eq (ownHash : ScriptHash) (inputs : List Input) :
    yieldIn ownHash inputs = (searchFor (Input.atScript ownHash) inputs).bind fun x => do
      let datum ← x.1.output.channel
      expect (datum.ownHash = ownHash)
      return (x.1.output.address, x.1.output.value, datum.constants, datum.stage, x.2) := by
  induction inputs with
  | nil => rfl
  | cons input inputs ih =>
    by_cases h : input.output.address.paymentCredential = .script ownHash
    · have hat : input.atScript ownHash = true := by simp [Input.atScript, Output.atScript, h]
      rw [yieldIn, if_pos h, searchFor, if_pos hat]
      rfl
    · have hat : ¬input.atScript ownHash = true := by simp [Input.atScript, Output.atScript, h]
      rw [yieldIn, if_neg h, searchFor, if_neg hat, ih]

lemma yieldIn_eq_some {inputs rest : List Input} {address : Address} {value : Value}
    {constants : Constants} {stage : Stage} :
    yieldIn ownHash inputs = some (address, value, constants, stage, rest) ↔
      ∃ input, searchFor (Input.atScript ownHash) inputs = some (input, rest) ∧
        input.output.address = address ∧ input.output.value = value ∧
        input.output.channel = some ⟨ownHash, constants, stage⟩ := by
  rw [yieldIn_eq]
  simp only [Option.bind_eq_bind, Option.bind_eq_some_iff, expect_eq_some, Option.pure_def,
    Option.some.injEq, Prod.mk.injEq]
  constructor
  · rintro ⟨⟨input, rest⟩, hsearch, ⟨_, _, _⟩, hchannel, -, rfl, rfl, rfl, rfl, rfl, rfl⟩
    exact ⟨input, hsearch, rfl, rfl, hchannel⟩
  · rintro ⟨input, hsearch, rfl, rfl, hchannel⟩
    exact ⟨(input, rest), hsearch, _, hchannel, (), rfl, rfl, rfl, rfl, rfl, rfl⟩

/-- The test for the outputs that a search from an address finds. -/
def Output.atAddress (address : Address) (output : Output) : Bool := address = output.address

/-- An output carries on a channel under the script's address. -/
structure Continues (ownHash : ScriptHash) (address : Address) (constants : Constants)
    (stage : Stage) (output : Output) : Prop where
  address : output.address = address
  channel : output.channel = some ⟨ownHash, constants, stage⟩
  referenceScript : output.referenceScript = none

lemma yieldOut_eq_some {outputs rest : List Output} {address : Address} {value : Value}
    {constants : Constants} {stage : Stage}
    (haddress : address.paymentCredential = .script ownHash) :
    yieldOut address constants outputs = some (value, stage, rest) ↔
      ∃ output, searchFor (Output.atAddress address) outputs = some (output, rest) ∧
        output.value = value ∧ Continues ownHash address constants stage output := by
  induction outputs with
  | nil => simp [yieldOut, searchFor]
  | cons output outputs ih =>
    by_cases h : address = output.address
    · have hat : Output.atAddress address output = true := by simp [Output.atAddress, h]
      rw [yieldOut, if_pos h, searchFor, if_pos hat, ← h, haddress]
      simp only [Option.bind_eq_bind, Option.bind_eq_some_iff, expect_eq_some, Option.pure_def,
        Option.some.injEq, Prod.mk.injEq]
      constructor
      · rintro ⟨⟨_, _, _⟩, hchannel, -, rfl, -, rfl, -, hscript, rfl, rfl, rfl⟩
        exact ⟨output, ⟨rfl, rfl⟩, rfl, h.symm, hchannel, hscript⟩
      · rintro ⟨_, ⟨rfl, rfl⟩, rfl, -, hchannel, hscript⟩
        exact ⟨_, hchannel, (), rfl, (), rfl, (), hscript, rfl, rfl, rfl⟩
    · have hat : ¬Output.atAddress address output = true := by simp [Output.atAddress, h]
      rw [yieldOut, if_neg h, searchFor, if_neg hat, ih]

/-! ### What main verifies -/

/-- One input that main verified: the step, the output that continues it if the step is not
the last, and the key that must sign. -/
structure Verified where
  input : Input
  step : Step
  output : Option Output
  vkey : VerificationKey

namespace Verified

/-- The step is accepted on the input and its continuing output. -/
def Valid (crypto : Crypto) (ownHash : ScriptHash) (bounds : Bounds) (v : Verified) : Prop :=
  ∃ constants stageIn, v.input.output.channel = some ⟨ownHash, constants, stageIn⟩ ∧
    match v.step, v.output with
    | .stepCont step, some output =>
      ∃ stageOut, Continues ownHash v.input.output.address constants stageOut output ∧
        cont crypto bounds constants v.input.output.value stageIn output.value stageOut step =
          some v.vkey
    | .stepEol step, none => eol bounds constants stageIn step = some v.vkey
    | _, _ => False

/-- The search for the continuing output, if there is one. -/
def search (v : Verified) : Option ((Output → Bool) × Output) :=
  v.output.map fun output => (Output.atAddress v.input.output.address, output)

lemma filterMap_search_cons (v : Verified) (vs : List Verified) :
    (v :: vs).filterMap search = v.search.toList ++ vs.filterMap search := by
  cases h : v.search with
  | none => rw [List.filterMap_cons_none h, Option.toList_none, List.nil_append]
  | some x => rw [List.filterMap_cons_some h, Option.toList_some, List.singleton_append]

lemma map_snd_search (vs : List Verified) :
    (vs.filterMap search).map Prod.snd = vs.filterMap output := by
  rw [List.map_filterMap]
  congr 1
  funext v
  rw [search, Option.map_map]
  cases v.output <;> rfl

end Verified

lemma mem_orderedInsert {xs : List Bytes} {item x : Bytes} :
    x ∈ orderedInsert xs item ↔ x = item ∨ x ∈ xs := by
  induction xs with
  | nil => simp [orderedInsert]
  | cons y xs ih =>
    rw [orderedInsert]
    cases h : compare y item with
    | lt =>
      simp only [List.mem_cons, ih]
      exact or_left_comm
    | eq =>
      obtain rfl := Std.compare_eq_iff_eq.mp h
      simp
    | gt => simp

namespace Main

/-- What one step of the fold amounts to. -/
lemma mkWith_eq_some {acc acc' : Acc} {step : Step} :
    mkWith crypto ownHash bounds acc step = some acc' ↔
      ∃ v : Verified, v.step = step ∧ v.Valid crypto ownHash bounds ∧
        searchFor (Input.atScript ownHash) acc.inputs = some (v.input, acc'.inputs) ∧
        Picks acc.outputs v.search.toList acc'.outputs ∧
        acc'.vkeys = orderedInsert acc.vkeys v.vkey := by
  obtain ⟨inputs', outputs', vkeys'⟩ := acc'
  -- what is found among the inputs is at the script, and so is what continues it
  have hat : ∀ {input rest}, searchFor (Input.atScript ownHash) acc.inputs = some (input, rest) →
      input.output.address.paymentCredential = .script ownHash := by
    intro input rest hsearch
    obtain ⟨-, -, hinput, -⟩ := searchFor_eq_some.mp hsearch
    simpa [Input.atScript, Output.atScript] using hinput
  simp only [mkWith, Option.bind_eq_bind, Option.bind_eq_some_iff, Prod.exists, yieldIn_eq_some,
    Option.pure_def]
  constructor
  · rintro ⟨_, _, constants, stageIn, inputs, ⟨input, hsearch, rfl, rfl, hchannel⟩, h⟩
    cases step with
    | stepCont step =>
      simp only [Option.bind_eq_some_iff, Prod.exists, yieldOut_eq_some (hat hsearch),
        Option.some.injEq, Acc.mk.injEq] at h
      obtain ⟨_, stageOut, outputs, ⟨output, hout, rfl, hcontinues⟩, vkey, hvkey, rfl, rfl, rfl⟩ :=
        h
      refine ⟨⟨input, .stepCont step, some output, vkey⟩, rfl, ?_, hsearch, ?_, rfl⟩
      · exact ⟨constants, stageIn, hchannel, stageOut, hcontinues, hvkey⟩
      · exact Picks.cons hout (Picks.nil _)
    | stepEol step =>
      simp only [Option.bind_eq_some_iff, Option.some.injEq, Acc.mk.injEq] at h
      obtain ⟨vkey, hvkey, rfl, rfl, rfl⟩ := h
      exact ⟨⟨input, .stepEol step, none, vkey⟩, rfl, ⟨constants, stageIn, hchannel, hvkey⟩,
        hsearch, Picks.nil _, rfl⟩
  · rintro ⟨⟨input, step', output, vkey⟩, rfl, ⟨constants, stageIn, hchannel, hvalid⟩, hsearch,
      hpicks, rfl⟩
    refine ⟨_, _, constants, stageIn, inputs', ⟨input, hsearch, rfl, rfl, hchannel⟩, ?_⟩
    cases step' with
    | stepCont step =>
      cases output with
      | none => exact absurd hvalid id
      | some output =>
        obtain ⟨stageOut, hcontinues, hvkey⟩ := hvalid
        obtain ⟨behind, hout, hnil⟩ := Picks.cons_iff.mp hpicks
        obtain rfl := Picks.nil_iff.mp hnil
        simp only [Option.bind_eq_some_iff, Prod.exists, yieldOut_eq_some (hat hsearch)]
        exact ⟨_, stageOut, behind, ⟨output, hout, rfl, hcontinues⟩, vkey, hvkey, rfl⟩
    | stepEol step =>
      cases output with
      | none =>
        obtain rfl := Picks.nil_iff.mp hpicks
        exact Option.bind_eq_some_iff.mpr ⟨vkey, hvalid, rfl⟩
      | some output => exact absurd hvalid id

/-- What the fold amounts to. -/
lemma foldlM_mkWith_eq_some {acc acc' : Acc} {steps : List Step} :
    steps.foldlM (mkWith crypto ownHash bounds) acc = some acc' ↔
      ∃ vs : List Verified, vs.map Verified.step = steps ∧
        (∀ v ∈ vs, v.Valid crypto ownHash bounds) ∧
        Picks acc.inputs ((vs.map Verified.input).map fun i => (Input.atScript ownHash, i))
          acc'.inputs ∧
        Picks acc.outputs (vs.filterMap Verified.search) acc'.outputs ∧
        acc'.vkeys = vs.foldl (fun vkeys v => orderedInsert vkeys v.vkey) acc.vkeys := by
  induction steps generalizing acc with
  | nil =>
    constructor
    · rintro h
      obtain rfl := Option.some.inj h
      exact ⟨[], rfl, by simp, Picks.nil _, Picks.nil _, rfl⟩
    · rintro ⟨vs, hsteps, -, hinputs, houtputs, hvkeys⟩
      obtain rfl := List.map_eq_nil_iff.mp hsteps
      obtain ⟨inputs, outputs, vkeys⟩ := acc
      obtain ⟨inputs', outputs', vkeys'⟩ := acc'
      obtain rfl : inputs = inputs' := Picks.nil_iff.mp hinputs
      obtain rfl : outputs = outputs' := Picks.nil_iff.mp houtputs
      obtain rfl : vkeys' = vkeys := hvkeys
      rfl
  | cons step steps ih =>
    simp only [List.foldlM_cons, Option.bind_eq_bind, Option.bind_eq_some_iff, mkWith_eq_some, ih]
    constructor
    · rintro ⟨acc₁, ⟨v, rfl, hvalid, hinput, houtput, hvkey⟩, vs, rfl, hvalids, hinputs, houtputs,
        hvkeys⟩
      refine ⟨v :: vs, rfl, List.forall_mem_cons.mpr ⟨hvalid, hvalids⟩, Picks.cons hinput hinputs,
        ?_, ?_⟩
      · rw [Verified.filterMap_search_cons]
        exact Picks.append_iff.mpr ⟨acc₁.outputs, houtput, houtputs⟩
      · rw [hvkeys, hvkey, List.foldl_cons]
    · rintro ⟨vs, hsteps, hvalids, hinputs, houtputs, hvkeys⟩
      rcases vs with _ | ⟨v, vs⟩
      · simp at hsteps
      obtain ⟨rfl, rfl⟩ : v.step = step ∧ vs.map Verified.step = steps := by simpa using hsteps
      obtain ⟨hvalid, hvalids⟩ := List.forall_mem_cons.mp hvalids
      obtain ⟨inputs, hinput, hinputs⟩ := Picks.cons_iff.mp hinputs
      rw [Verified.filterMap_search_cons] at houtputs
      obtain ⟨outputs, houtput, houtputs⟩ := Picks.append_iff.mp houtputs
      exact ⟨⟨inputs, outputs, orderedInsert acc.vkeys v.vkey⟩,
        ⟨v, rfl, hvalid, hinput, houtput, rfl⟩, vs, rfl, hvalids, hinputs, houtputs, hvkeys⟩

lemma mem_foldl_orderedInsert {vs : List Verified} {vkeys : List VerificationKey}
    {x : VerificationKey} :
    x ∈ vs.foldl (fun vkeys v => orderedInsert vkeys v.vkey) vkeys ↔
      x ∈ vkeys ∨ ∃ v ∈ vs, v.vkey = x := by
  induction vs generalizing vkeys with
  | nil => simp
  | cons v vs ih =>
    rw [List.foldl_cons, ih, mem_orderedInsert, List.exists_mem_cons_iff, @eq_comm _ v.vkey,
      @or_comm (x = v.vkey), or_assoc]

/-- What the main invocation checks: its steps verify the inputs at the script, all of them
and in order, the continuing outputs are found one behind the other, and the keys of all
steps are required signatories. -/
structure Checks (crypto : Crypto) (ownHash : ScriptHash) (steps : List Step) (tx : Transaction)
    (vs : List Verified) : Prop where
  steps : vs.map Verified.step = steps
  inputs : vs.map Verified.input = tx.inputs.filter (Input.atScript ownHash)
  valid : ∀ v ∈ vs, v.Valid crypto ownHash tx.validityRange
  outputs : ∃ rest, Picks tx.outputs (vs.filterMap Verified.search) rest
  signed : ∀ v ∈ vs, (crypto.blake2b224 v.vkey).1 ∈ tx.extraSignatories

theorem handle_eq_true {datum : Datum} {steps : List Step} {tx : Transaction} :
    handle crypto datum steps tx = some true ↔
      ∃ vs, Checks crypto datum.ownHash steps tx vs := by
  simp only [handle, Option.bind_eq_bind, Option.bind_eq_some_iff, foldlM_mkWith_eq_some,
    expect_eq_some, Option.pure_def, Option.some.injEq]
  have hnone : ∀ inputs : List Input,
      (inputs.all fun input => input.output.address.paymentCredential ≠ .script datum.ownHash) =
        true ↔ inputs.filter (Input.atScript datum.ownHash) = [] := by
    intro inputs
    simp [List.filter_eq_nil_iff, Input.atScript, Output.atScript]
  constructor
  · rintro ⟨acc, ⟨vs, hsteps, hvalid, hinputs, houtputs, hvkeys⟩, -, hsigned, hall⟩
    refine ⟨vs, hsteps, ?_, hvalid, ⟨_, houtputs⟩, ?_⟩
    · rw [hinputs.filter_eq, (hnone _).mp hall, List.append_nil]
    · intro v hv
      refine hsigned v.vkey ?_
      rw [hvkeys]
      exact mem_foldl_orderedInsert.mpr (Or.inr ⟨v, hv, rfl⟩)
  · rintro ⟨vs, hsteps, hinputs, hvalid, ⟨outputs, houtputs⟩, hsigned⟩
    obtain ⟨inputs, hpicks, hrest⟩ := Picks.filter tx.inputs (Input.atScript datum.ownHash)
    rw [← hinputs] at hpicks
    refine ⟨⟨inputs, outputs, _⟩, ⟨vs, hsteps, hvalid, hpicks, houtputs, rfl⟩, (), ?_,
      (hnone _).mpr hrest⟩
    intro vkey hvkey
    obtain ⟨v, hv, rfl⟩ := (mem_foldl_orderedInsert.mp hvkey).resolve_left (by simp)
    exact hsigned v hv

end Main

end Konduit.Kernel
