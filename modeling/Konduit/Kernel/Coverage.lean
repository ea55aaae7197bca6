import Mathlib.Data.List.Nodup
import Konduit.Kernel.Spend

/-!
# Every channel that is spent is verified

Three invocations of the validator check a transaction, each on its own: main verifies all
channels of the script named in its datum, defer leaves it to the first input of that
script, and mutual wants to be alone.  Together they leave no channel out, whatever
redeemers a transaction chooses and whatever else it spends at the script (`coverage`).
-/

open Lib

namespace Konduit.Kernel

variable {crypto : Crypto} {ownHash : ScriptHash} {tx : Transaction}
  {redeemers : OutputReference → Redeemer}

/-! ### Statements -/

/-- The input is the only one at the script, spent by mutual consent with both keys. -/
structure SpentMutually (crypto : Crypto) (ownHash : ScriptHash) (tx : Transaction)
    (redeemers : OutputReference → Redeemer) (input : Input) (constants : Constants) : Prop where
  redeemer : redeemers input.outputReference = .mutual
  alone : tx.inputs.filter (Input.atScript ownHash) = [input]
  addSigned : (crypto.blake2b224 constants.addVkey).1 ∈ tx.extraSignatories
  subSigned : (crypto.blake2b224 constants.subVkey).1 ∈ tx.extraSignatories

/-- A successful main invocation verifies the input by exactly one of its steps.  The
outputs that continue channels stand in the transaction at increasing positions, in the
order of the inputs. -/
structure SpentByMain (crypto : Crypto) (ownHash : ScriptHash) (tx : Transaction)
    (redeemers : OutputReference → Redeemer) (input main : Input) (vs : List Verified) :
    Prop where
  atScript : main ∈ tx.inputs.filter (Input.atScript ownHash)
  redeemer : redeemers main.outputReference = .main (vs.map Verified.step)
  inputs : vs.map Verified.input = tx.inputs.filter (Input.atScript ownHash)
  once : ∃ pre v post, vs = pre ++ v :: post ∧ v.input = input ∧
    ∀ w ∈ pre ++ post, w.input.outputReference ≠ input.outputReference
  valid : ∀ v ∈ vs, v.Valid crypto ownHash tx.validityRange
  signed : ∀ v ∈ vs, (crypto.blake2b224 v.vkey).1 ∈ tx.extraSignatories
  outputs : (vs.filterMap Verified.output).Sublist tx.outputs

/-! ### What each invocation looks at -/

lemma mainOref_eq_some {inputs : List Input} {oref : OutputReference}
    (h : Defer.mainOref (.script ownHash) inputs = some oref) :
    ∃ input ∈ inputs, input.atScript ownHash = true ∧ input.outputReference = oref ∧
      Defer.getOwnHash input.output.datum = some ownHash := by
  induction inputs with
  | nil => simp [Defer.mainOref] at h
  | cons input inputs ih =>
    rw [Defer.mainOref] at h
    split at h
    · rename_i hcred
      simp only [Option.bind_eq_bind, Option.bind_eq_some_iff, expect_eq_some, Option.pure_def,
        Option.some.injEq] at h
      obtain ⟨hash, hhash, -, hown, rfl⟩ := h
      obtain rfl : hash = ownHash := Credential.script.inj hown
      exact ⟨input, by simp, by simp [Input.atScript, Output.atScript, hcred], rfl, hhash⟩
    · obtain ⟨main, hmem, hmain⟩ := ih h
      exact ⟨main, List.mem_cons_of_mem _ hmem, hmain⟩

/-- A channel whose datum defer reads is the channel that the validator is given. -/
lemma ownHash_of_getOwnHash {output : Output} {data : Plutus.Data} {datum : Datum}
    (hown : Defer.getOwnHash output.datum = some ownHash) (hdata : tx.datumOf output = some data)
    (hdatum : Datum.ofData data = some datum) : datum.ownHash = ownHash := by
  rw [Defer.getOwnHash.eq_def] at hown
  split at hown
  · rename_i hash constants stage hinline
    obtain rfl := Option.some.inj hown
    rw [Transaction.datumOf, hinline] at hdata
    obtain rfl := Option.some.inj hdata
    simp only [Datum.ofData, Option.bind_eq_bind, Option.bind_eq_some_iff, Option.pure_def,
      Option.some.injEq] at hdatum
    obtain ⟨-, -, -, -, rfl⟩ := hdatum
    rfl
  · simp at hown

/-- A validated input at the script has a channel datum, on which the spend succeeds. -/
lemma spend_of_validates (h : tx.Validates crypto ownHash redeemers) {input : Input}
    (hin : input ∈ tx.inputs) (hat : input.atScript ownHash = true) :
    ∃ data datum, tx.datumOf input.output = some data ∧ Datum.ofData data = some datum ∧
      spend crypto datum (redeemers input.outputReference) input.outputReference tx =
        some true := by
  have hvalid := h input hin hat
  simp only [konduit, Option.bind_eq_bind, Option.bind_eq_some_iff] at hvalid
  obtain ⟨data, hdata, datum, hdatum, hspend⟩ := hvalid
  exact ⟨data, datum, hdata, hdatum, hspend⟩

/-- Two inputs of a transaction that spend the same output are the same. -/
lemma Transaction.input_eq (tx : Transaction) {input input' : Input} (hin : input ∈ tx.inputs)
    (hin' : input' ∈ tx.inputs) (h : input.outputReference = input'.outputReference) :
    input = input' :=
  List.inj_on_of_nodup_map tx.distinct hin hin' h

/-- A mutual spend wants both signatures, and to be alone. -/
lemma spentMutually_of_mutual {input : Input} {datum : Datum} (hin : input ∈ tx.inputs)
    (hat : input.atScript ownHash = true)
    (hredeemer : redeemers input.outputReference = .mutual)
    (h : Mutual.handle crypto datum input.outputReference tx = some true) :
    SpentMutually crypto ownHash tx redeemers input datum.constants := by
  simp only [Mutual.handle, Option.bind_eq_bind, Option.bind_eq_some_iff, expect_eq_some,
    Option.pure_def, Option.some.injEq, decide_eq_true_eq] at h
  obtain ⟨-, hadd, -, hsub, own, hfind, hcount⟩ := h
  -- the input that mutual finds is its own
  have hown : own = input :=
    tx.input_eq (List.mem_of_find?_eq_some hfind) hin (by simpa using List.find?_some hfind)
  have hcred : input.output.address.paymentCredential = .script ownHash := by
    simpa [Input.atScript, Output.atScript] using hat
  refine ⟨hredeemer, ?_, hadd, hsub⟩
  rw [hown, hcred, List.countP_eq_length_filter] at hcount
  obtain ⟨only, honly⟩ := List.length_eq_one_iff.mp hcount.symm
  have hfilter : tx.inputs.filter (Input.atScript ownHash) = [only] := honly
  have hmem : input ∈ tx.inputs.filter (Input.atScript ownHash) := List.mem_filter.mpr ⟨hin, hat⟩
  rw [hfilter] at hmem
  rw [hfilter, List.mem_singleton.mp hmem]

/-- A main invocation covers every input at the script. -/
lemma spentByMain_of_main {input main : Input} {datum : Datum} {steps : List Step}
    (hin : input ∈ tx.inputs) (hat : input.atScript ownHash = true) (hmain : main ∈ tx.inputs)
    (hmainAt : main.atScript ownHash = true)
    (hredeemer : redeemers main.outputReference = .main steps) (hown : datum.ownHash = ownHash)
    (h : Main.handle crypto datum steps tx = some true) :
    ∃ vs, SpentByMain crypto ownHash tx redeemers input main vs := by
  obtain ⟨vs, hchecks⟩ := Main.handle_eq_true.mp h
  rw [hown] at hchecks
  obtain ⟨rest, hpicks⟩ := hchecks.outputs
  refine ⟨vs, List.mem_filter.mpr ⟨hmain, hmainAt⟩, ?_, hchecks.inputs, ?_, hchecks.valid,
    hchecks.signed, ?_⟩
  · rw [hredeemer, hchecks.steps]
  · -- the input stands once among those at the script
    have hmem : input ∈ vs.map Verified.input := by
      rw [hchecks.inputs]
      exact List.mem_filter.mpr ⟨hin, hat⟩
    obtain ⟨v, hv, rfl⟩ := List.mem_map.mp hmem
    obtain ⟨pre, post, rfl⟩ := List.append_of_mem hv
    refine ⟨pre, v, post, rfl, rfl, ?_⟩
    have hnodup : ((pre ++ v :: post).map fun w => w.input.outputReference).Nodup := by
      have hsub := (List.filter_sublist (p := Input.atScript ownHash) (l := tx.inputs)).map
        Input.outputReference
      rw [← hchecks.inputs, List.map_map] at hsub
      exact hsub.nodup tx.distinct
    have hperm := (@List.perm_middle _ v pre post).map
      fun w => w.input.outputReference
    obtain ⟨hnot, -⟩ := List.nodup_cons.mp (hperm.nodup_iff.mp hnodup)
    intro w hw heq
    exact hnot (List.mem_map.mpr ⟨w, hw, heq⟩)
  · rw [← Verified.map_snd_search]
    exact hpicks.sublist

/-! ### All of them together -/

/-- When the validator succeeds on every input at the script, each of them that carries a
channel of the script is spent by mutual consent, alone, or is verified by one step of a
main invocation. -/
theorem coverage (h : tx.Validates crypto ownHash redeemers) {input : Input}
    (hin : input ∈ tx.inputs) (hat : input.atScript ownHash = true) {data : Plutus.Data}
    {datum : Datum} (hdata : tx.datumOf input.output = some data)
    (hdatum : Datum.ofData data = some datum) (hown : datum.ownHash = ownHash) :
    SpentMutually crypto ownHash tx redeemers input datum.constants ∨
      ∃ main vs, SpentByMain crypto ownHash tx redeemers input main vs := by
  obtain ⟨data', datum', hdata', hdatum', hspend⟩ := spend_of_validates h hin hat
  obtain rfl : data = data' := Option.some.inj (hdata.symm.trans hdata')
  obtain rfl : datum = datum' := Option.some.inj (hdatum.symm.trans hdatum')
  cases hredeemer : redeemers input.outputReference with
  | «mutual» =>
    rw [hredeemer] at hspend
    exact Or.inl (spentMutually_of_mutual hin hat hredeemer hspend)
  | main steps =>
    rw [hredeemer] at hspend
    obtain ⟨vs, hvs⟩ := spentByMain_of_main hin hat hin hat hredeemer hown hspend
    exact Or.inr ⟨input, vs, hvs⟩
  | defer =>
    rw [hredeemer] at hspend
    change Defer.handle datum input.outputReference tx = some true at hspend
    simp only [Defer.handle, hown, Option.bind_eq_bind, Option.bind_eq_some_iff, Option.pure_def,
      Option.some.injEq, decide_eq_true_eq] at hspend
    obtain ⟨oref, horef, hne⟩ := hspend
    obtain ⟨first, hfirst, hfirstAt, rfl, hfirstOwn⟩ := mainOref_eq_some horef
    obtain ⟨data₁, datum₁, hdata₁, hdatum₁, hspend₁⟩ := spend_of_validates h hfirst hfirstAt
    have hown₁ := ownHash_of_getOwnHash hfirstOwn hdata₁ hdatum₁
    -- the first input at the script is not this one; it cannot defer to itself or be alone
    cases hredeemer₁ : redeemers first.outputReference with
    | main steps =>
      rw [hredeemer₁] at hspend₁
      obtain ⟨vs, hvs⟩ := spentByMain_of_main hin hat hfirst hfirstAt hredeemer₁ hown₁ hspend₁
      exact Or.inr ⟨first, vs, hvs⟩
    | defer =>
      rw [hredeemer₁] at hspend₁
      change Defer.handle datum₁ first.outputReference tx = some true at hspend₁
      simp only [Defer.handle, hown₁, horef, Option.bind_eq_bind, Option.bind_some,
        Option.pure_def, Option.some.injEq, decide_eq_true_eq] at hspend₁
      exact absurd rfl hspend₁
    | «mutual» =>
      rw [hredeemer₁] at hspend₁
      have halone := (spentMutually_of_mutual hfirst hfirstAt hredeemer₁ hspend₁).alone
      have hmem : input ∈ tx.inputs.filter (Input.atScript ownHash) :=
        List.mem_filter.mpr ⟨hin, hat⟩
      rw [halone] at hmem
      exact absurd (congrArg Input.outputReference (List.mem_singleton.mp hmem)) hne

/-- The address of a script that is 28 zero bytes, without a stake part. -/
def sampleAddress : Address := ⟨.script (List.replicate 28 0), none⟩

/-- The datum of a channel between two keys of zero bytes. -/
def sampleDatum (stage : Plutus.Data) : OutputDatum :=
  .inlineDatum (.list [.bytes (List.replicate 28 0),
    .list [.bytes [], .bytes (List.replicate 32 0), .bytes (List.replicate 32 0), .int 86_400_000],
    stage])

/-- An opened channel. -/
def sampleOpened (lovelace : UInt64) : Output :=
  ⟨sampleAddress, lovelace, [], sampleDatum (.constr 0 [.int 0, .list []]), none⟩

/-- A responded channel without pendings. -/
def sampleEmpty : Output :=
  ⟨sampleAddress, 2_000_000, [], sampleDatum (.constr 2 [.int 0, .list []]), none⟩

/-- A transaction that adds to an opened channel and ends a responded one. -/
def sampleTx : Transaction where
  inputs := [⟨⟨[], 0⟩, sampleOpened 5_000_000⟩, ⟨⟨[], 1⟩, sampleEmpty⟩]
  outputs := [sampleOpened 7_000_000]
  validityRange := ⟨.negativeInfinity, .positiveInfinity⟩
  extraSignatories := [List.replicate 28 0]
  datums := []
  distinct := by decide

/-- The redeemers of the sample: main on the first output, defer on all others. -/
def sampleRedeemers (oref : OutputReference) : Redeemer :=
  if oref.outputIndex = 0 then .main [.stepCont .add, .stepEol .end] else .defer

lemma sampleTx_validates :
    sampleTx.Validates Crypto.noCrypto (List.replicate 28 0) sampleRedeemers := by
  intro input hin hat
  obtain rfl | rfl : input = ⟨⟨[], 0⟩, sampleOpened 5_000_000⟩ ∨
      input = ⟨⟨[], 1⟩, sampleEmpty⟩ := by
    simpa [sampleTx] using hin
  · decide +kernel
  · decide +kernel

/-- The second channel of the sample is left to the first. -/
theorem coverage_sampleTx :
    SpentMutually Crypto.noCrypto (List.replicate 28 0) sampleTx sampleRedeemers
        ⟨⟨[], 1⟩, sampleEmpty⟩ ⟨[], List.replicate 32 0, List.replicate 32 0, 86_400_000⟩ ∨
      ∃ main vs, SpentByMain Crypto.noCrypto (List.replicate 28 0) sampleTx sampleRedeemers
        ⟨⟨[], 1⟩, sampleEmpty⟩ main vs := by
  have hin : ⟨⟨[], 1⟩, sampleEmpty⟩ ∈ sampleTx.inputs := by simp [sampleTx]
  exact coverage sampleTx_validates hin (by decide) rfl
    (show Datum.ofData _ = some ⟨List.replicate 28 0, _, .responded 0 []⟩ from rfl) rfl

end Konduit.Kernel
