import Mathlib.Data.List.Dedup
import Konduit.Cardano.Transaction
import Konduit.Data.Reading
import Konduit.Kernel.Layout

/-!
# Laying out a batch

Both transaction builders put stepped channels, fuel and opened channels together in the same
way: the first channel carries the steps of all of them, and the continuing outputs come
first.  The ledger mixes the fuel into the channels, and still shows the channels in order.
-/

open Lib

namespace Konduit.Tx

open Data Cardano
open Kernel (OutputReference Verified)

/-- The redeemer of the channel at an index. -/
def redeemer (steps : List Step) (index : ℕ) : Redeemer :=
  if index = 0 then .main steps else .defer

/-- The channels with their redeemers. -/
def batchInputs (orefs : List OutputReference) (steps : List Step) :
    List (OutputReference × Redeemer) :=
  orefs.zipIdx.map fun x => (x.1, redeemer steps x.2)

/-- Fuel is spent without a redeemer. -/
def withFuel (inputs : List (OutputReference × Redeemer)) (fuel : List OutputReference) :
    List (OutputReference × Option Redeemer) :=
  (inputs.map fun x => (x.1, some x.2)) ++ fuel.map fun x => (x, none)

lemma mem_withFuel {orefs fuel : List OutputReference} {steps : List Step}
    {oref : OutputReference} :
    (∃ redeemer, (oref, redeemer) ∈ withFuel (batchInputs orefs steps) fuel) ↔
      oref ∈ orefs ∨ oref ∈ fuel := by
  have horefs : (batchInputs orefs steps).map Prod.fst = orefs := by
    rw [batchInputs, List.map_map]
    exact List.zipIdx_map_fst 0 orefs
  have hmem : (∃ redeemer, (oref, redeemer) ∈ batchInputs orefs steps) ↔ oref ∈ orefs := by
    conv_rhs => rw [← horefs]
    simp
  rw [← hmem]
  simp [withFuel, exists_or]

lemma mem_withFuel_of_getElem? {orefs fuel : List OutputReference} {steps : List Step}
    {oref : OutputReference} {i : ℕ} (h : orefs[i]? = some oref) :
    (oref, some (redeemer steps i)) ∈ withFuel (batchInputs orefs steps) fuel := by
  refine List.mem_append_left _ (List.mem_map.mpr ⟨(oref, redeemer steps i), ?_, rfl⟩)
  exact List.mem_map.mpr ⟨(oref, i), List.mem_zipIdx_iff_getElem?.mpr h, rfl⟩

/-- An output that carries a channel: lovelace and the datum, and nothing else. -/
def channelOutput (hash : Kernel.ScriptHash) (address : Kernel.Address) (lovelace : UInt64)
    (constants : Constants) (stage : Stage) : Kernel.Output :=
  ⟨address, lovelace, [], .inlineDatum (Datum.toData ⟨hash, constants, stage⟩), none⟩

@[simp] lemma channel_channelOutput (hash : Kernel.ScriptHash) (address : Kernel.Address)
    (lovelace : UInt64) (constants : Constants) (stage : Stage) :
    (channelOutput hash address lovelace constants stage).channel =
      some ⟨hash, constants.toKernel, stage.toKernel⟩ :=
  Datum.ofData_toData _

/-- The key that must sign for a step. -/
def stepSigner (constants : Constants) (step : Step) : VerifyingKey :=
  if step.isConsumer then constants.addVkey else constants.subVkey

lemma stepSigner_toKernel (constants : Constants) (step : Step) :
    step.toKernel.signer constants.toKernel = (stepSigner constants step).bytes.1 := by
  have hadaptor : step.toKernel.isAdaptor = step.isAdaptor := by
    cases step with
    | cont step => cases step <;> rfl
    | eol step => rfl
  rw [Kernel.Step.signer, hadaptor, stepSigner, Step.isConsumer]
  cases step.isAdaptor <;> rfl

/-- The kernel wants the key that was read. -/
lemma signer_eq_stepSigner {constants : Constants} {constants' : Kernel.Constants}
    (hread : constants.toKernel = constants'.asRead) (step : Step) :
    step.toKernel.signer constants' = (stepSigner constants step).bytes.1 := by
  rw [← stepSigner_toKernel, hread]
  rfl

/-- The keys without repetition; they are sorted first, so that equal keys stand together. -/
def dedupSigners (signers : List VerifyingKey) : List VerifyingKey :=
  (signers.mergeSort fun a b => (compare a.bytes.1 b.bytes.1).isLE).dedup

lemma mem_dedupSigners {signers : List VerifyingKey} {key : VerifyingKey} :
    key ∈ dedupSigners signers ↔ key ∈ signers := by
  rw [dedupSigners, List.mem_dedup, (List.mergeSort_perm _ _).mem_iff]

lemma dedupSigners_singleton (key : VerifyingKey) : dedupSigners [key] = [key] := by
  rw [dedupSigners, List.mergeSort_singleton, (List.nodup_singleton key).dedup]

/-! ### Steps that are accepted -/

section Accepted

variable {crypto : Crypto} {hash : Kernel.ScriptHash} {bounds : Kernel.Bounds}
  {input : Kernel.Input} {constants : Constants} {constantsIn : Kernel.Constants}
  {stageIn : Kernel.Stage}

/-- A step is valid with an output at the address of its input just when it is accepted on its
own, and the constants are the channel's own. -/
lemma valid_cont_iff (honChain : input.output.channel = some ⟨hash, constantsIn, stageIn⟩)
    (hread : constants.toKernel = constantsIn.asRead) {lovelace : UInt64} {stageOut : Stage}
    {step : Cont} :
    Verified.Valid crypto hash bounds ⟨input, .stepCont step.toKernel,
        some (channelOutput hash input.output.address lovelace constants stageOut),
        (stepSigner constants (.cont step)).bytes.1⟩ ↔
      (∃ vkey, Kernel.cont crypto bounds constantsIn input.output.value stageIn
        (Kernel.ada lovelace.toNat) stageOut.toKernel step.toKernel = some vkey) ∧
          OwnConstants input.output constants := by
  constructor
  · rintro ⟨constants', stage', hchannel, stage, hcontinues, hvkey⟩
    obtain ⟨-, rfl, rfl⟩ :=
      Kernel.Datum.mk.inj (Option.some.inj (hchannel.symm.trans honChain))
    have hout := hcontinues.channel
    rw [channel_channelOutput] at hout
    obtain ⟨-, rfl, rfl⟩ := Kernel.Datum.mk.inj (Option.some.inj hout)
    exact ⟨⟨_, hvkey⟩, _, _, honChain⟩
  · rintro ⟨⟨vkey, h⟩, hown⟩
    obtain rfl := hown.eq honChain
    refine ⟨_, _, honChain, stageOut.toKernel, ⟨rfl, channel_channelOutput _ _ _ _ _, rfl⟩, ?_⟩
    rw [← signer_eq_stepSigner hread]
    have hvkey := Kernel.vkey_of_cont h
    exact hvkey ▸ h

lemma valid_eol_iff (honChain : input.output.channel = some ⟨hash, constantsIn, stageIn⟩)
    (hread : constants.toKernel = constantsIn.asRead) {step : Kernel.Eol} :
    Verified.Valid crypto hash bounds ⟨input, .stepEol step, none,
        (stepSigner constants (.eol step)).bytes.1⟩ ↔
      ∃ vkey, Kernel.eol bounds constantsIn stageIn step = some vkey := by
  constructor
  · rintro ⟨constants', stage', hchannel, hvkey⟩
    obtain ⟨-, rfl, rfl⟩ :=
      Kernel.Datum.mk.inj (Option.some.inj (hchannel.symm.trans honChain))
    exact ⟨_, hvkey⟩
  · rintro ⟨vkey, h⟩
    refine ⟨_, _, honChain, ?_⟩
    have hvkey := Kernel.vkey_of_eol h
    rw [← signer_eq_stepSigner hread]
    exact hvkey ▸ h

end Accepted

/-! ### What the ledger shows -/

section Shown

variable {crypto : Crypto} {hash : Kernel.ScriptHash} {vs : List Verified} {steps : List Step}
  {fuel : List OutputReference} {opens : List Kernel.Output} {signatories : List (BytesN 28)}
  {validity : ValidityInterval} {change : Option Change}
  {utxos : OutputReference → Option Kernel.Output} {config : SlotConfig}
  {tx : Kernel.Transaction} {redeemers : OutputReference → Kernel.Redeemer}

/-- The reference of the channel that a step spends. -/
def oref (v : Verified) : OutputReference := v.input.outputReference

/-- The channels of a batch, as a builder has them. -/
structure Channels (hash : Kernel.ScriptHash) (utxos : OutputReference → Option Kernel.Output)
    (vs : List Verified) : Prop where
  ordered : (vs.map oref).Pairwise OutputReference.Before
  resolved : ∀ v ∈ vs, utxos (oref v) = some v.input.output
  atScript : ∀ v ∈ vs, v.input.atScript hash = true

/-- Fuel is not locked by the script. -/
def FuelOff (hash : Kernel.ScriptHash) (utxos : OutputReference → Option Kernel.Output)
    (fuel : List OutputReference) : Prop :=
  ∀ oref ∈ fuel, ∀ output, utxos oref = some output → output.atScript hash = false

/-- The ledger shows the channels of a batch as the inputs at the script, in order. -/
lemma inputs_of_shown (hchannels : Channels hash utxos vs) (hfuel : FuelOff hash utxos fuel)
    (hshown : (TransactionBody.build (withFuel (batchInputs (vs.map oref) steps) fuel) opens
      signatories validity change).Shown utxos config tx redeemers) :
    vs.map Verified.input = tx.inputs.filter (Kernel.Input.atScript hash) := by
  have hmem : ∀ {o}, o ∈ tx.inputs.map Kernel.Input.outputReference ↔
      o ∈ vs.map oref ∨ o ∈ fuel := hshown.mem_inputs.trans mem_withFuel
  have hordered : (vs.map Verified.input).Pairwise fun a b =>
      a.outputReference.Before b.outputReference := by
    have := hchannels.ordered
    rw [List.pairwise_map] at this ⊢
    exact this
  have hordered' : (tx.inputs.filter (Kernel.Input.atScript hash)).Pairwise fun a b =>
      a.outputReference.Before b.outputReference :=
    (List.pairwise_map.mp hshown.ordered).filter _
  have hne : ∀ {a b : Kernel.Input}, a.outputReference.Before b.outputReference → a ≠ b := by
    rintro a _ h rfl
    exact irrefl _ h
  refine List.Perm.eq_of_pairwise (fun a b _ _ h h' => ?_) hordered hordered' ?_
  · -- no two references come before each other
    have heq := antisymm h h'
    rw [heq] at h
    exact absurd h (irrefl _)
  · refine (List.perm_ext_iff_of_nodup (hordered.imp hne) (hordered'.imp hne)).mpr fun input => ?_
    rw [List.mem_filter, List.mem_map]
    constructor
    · rintro ⟨v, hv, rfl⟩
      refine ⟨?_, hchannels.atScript v hv⟩
      obtain ⟨input, hin, heq⟩ := List.mem_map.mp (hmem.mpr (Or.inl (List.mem_map_of_mem hv)))
      have hresolved := hshown.resolved input hin
      rw [heq, hchannels.resolved v hv] at hresolved
      obtain ⟨outputReference, output⟩ := input
      obtain rfl : outputReference = v.input.outputReference := heq
      obtain rfl : v.input.output = output := Option.some.inj hresolved
      exact hin
    · rintro ⟨hin, hat⟩
      have hresolved := hshown.resolved input hin
      rcases hmem.mp (List.mem_map_of_mem hin) with hbatch | hfuelled
      · obtain ⟨v, hv, heq⟩ := List.mem_map.mp hbatch
        refine ⟨v, hv, ?_⟩
        rw [← heq, hchannels.resolved v hv] at hresolved
        obtain ⟨outputReference, output⟩ := input
        obtain rfl : v.input.outputReference = outputReference := heq
        obtain rfl : v.input.output = output := Option.some.inj hresolved
        rfl
      · rw [Kernel.Input.atScript, hfuel _ hfuelled _ hresolved] at hat
        cases hat

/-- The ledger shows the first channel with all steps, and the others with defer. -/
lemma redeemers_of_shown (hsteps : steps.map Step.toKernel = vs.map Verified.step)
    (hshown : (TransactionBody.build (withFuel (batchInputs (vs.map oref) steps) fuel) opens
      signatories validity change).Shown utxos config tx redeemers) :
    (vs.map fun v => redeemers (oref v)) = Kernel.batchRedeemers (vs.map Verified.step) := by
  have hredeemer : ∀ {i v}, vs[i]? = some v →
      redeemers (oref v) = (redeemer steps i).toKernel := by
    intro i v hi
    refine hshown.redeemer_eq (mem_withFuel_of_getElem? ?_)
    rw [List.getElem?_map, hi, Option.map_some]
  rcases vs with _ | ⟨first, rest⟩
  · rfl
  · have hfirst : redeemers (oref first) = .main ((first :: rest).map Verified.step) := by
      rw [@hredeemer 0 first rfl, ← hsteps]
      rfl
    have hrest : ∀ v ∈ rest, redeemers (oref v) = .defer := by
      intro v hv
      obtain ⟨i, hi⟩ := List.mem_iff_getElem?.mp hv
      rw [@hredeemer (i + 1) v hi]
      rfl
    refine congrArg₂ List.cons hfirst ?_
    rw [List.map_map]
    exact List.map_congr_left hrest

/-- What is built for a batch is laid out as main takes it. -/
lemma laidOut_of_shown (hchannels : Channels hash utxos vs) (hfuel : FuelOff hash utxos fuel)
    (hsigned : ∀ v ∈ vs, crypto.blake2b224 v.vkey ∈ signatories)
    (hshown : (TransactionBody.build (withFuel (batchInputs (vs.map oref) steps) fuel)
      (vs.filterMap Verified.output ++ opens) signatories validity change).Shown utxos config tx
        redeemers) :
    Kernel.LaidOut crypto hash tx vs := by
  refine ⟨inputs_of_shown hchannels hfuel hshown, ?_, fun v hv => ?_⟩
  · refine ⟨opens ++ (change.map Change.output).toList, ?_⟩
    rw [hshown.outputs, ← List.append_assoc]
    rfl
  · rw [hshown.extraSignatories]
    exact List.mem_map_of_mem (hsigned v hv)

lemma map_fst_withFuel (orefs fuel : List OutputReference) (steps : List Step) :
    (withFuel (batchInputs orefs steps) fuel).map Prod.fst = orefs ++ fuel := by
  rw [withFuel, List.map_append, List.map_map, List.map_map, batchInputs, List.map_map]
  exact congrArg₂ _ (List.zipIdx_map_fst 0 orefs) (List.map_id _)

lemma nodup_of_shown {orefs : List OutputReference}
    (hshown : (TransactionBody.build (withFuel (batchInputs orefs steps) fuel) opens
      signatories validity change).Shown utxos config tx redeemers) : orefs.Nodup := by
  have hnodup := tx.distinct
  rw [hshown.inputs_eq, (withInputs_perm _).nodup_iff] at hnodup
  refine List.Nodup.sublist ?_ hnodup
  have horefs : ((batchInputs orefs steps).map fun x => (x.1, some x.2)).map Prod.fst = orefs := by
    rw [batchInputs, List.map_map, List.map_map]
    exact List.zipIdx_map_fst 0 orefs
  rw [withFuel, List.map_append, horefs]
  exact List.sublist_append_left _ _

/-- The batch stands in the transaction as it was built: the ledger shows its channels in order,
the first with all steps and the others with defer, and main can take for each channel only
the output that was built for it. -/
structure Aligned (crypto : Crypto) (hash : Kernel.ScriptHash) (tx : Kernel.Transaction)
    (redeemers : OutputReference → Kernel.Redeemer) (vs : List Verified) : Prop where
  inputs : vs.map Verified.input = tx.inputs.filter (Kernel.Input.atScript hash)
  redeemers : (vs.map fun v => redeemers (oref v)) =
    Kernel.batchRedeemers (vs.map Verified.step)
  own : ∀ vs', Kernel.Main.Checks crypto hash (vs.map Verified.step) tx vs' → vs' = vs

/-- Main finds a batch as it was built, where each output is at the address of its input, and
accepts it just when each step is valid. -/
lemma validates_iff_of_shown (hchannels : Channels hash utxos vs) (hfuel : FuelOff hash utxos fuel)
    (hsteps : steps.map Step.toKernel = vs.map Verified.step)
    (hsigned : ∀ v ∈ vs, crypto.blake2b224 v.vkey ∈ signatories)
    (hshown : (TransactionBody.build (withFuel (batchInputs (vs.map oref) steps) fuel)
      (vs.filterMap Verified.output ++ opens) signatories validity change).Shown utxos config tx
        redeemers) (hshaped : ∀ v ∈ vs, v.Shaped hash) :
    Aligned crypto hash tx redeemers vs ∧
      (tx.Validates crypto hash redeemers ↔ ∀ v ∈ vs, v.Valid crypto hash tx.validityRange) := by
  have hlaidOut := laidOut_of_shown hchannels hfuel hsigned hshown
  have hredeemers := redeemers_of_shown hsteps hshown
  have hchannel : ∀ v ∈ vs, ∃ constants stage,
      v.input.output.channel = some ⟨hash, constants, stage⟩ := by
    intro v hv
    obtain ⟨constants, stage, hchannel, -⟩ := (hshaped v hv).channel
    exact ⟨constants, stage, hchannel⟩
  refine ⟨⟨hlaidOut.inputs, hredeemers, fun vs' => hlaidOut.eq_of_checks hshaped⟩, ?_⟩
  rw [Kernel.validates_iff hlaidOut.inputs hchannel hredeemers, hlaidOut.checks_iff hshaped]

end Shown

end Konduit.Tx
