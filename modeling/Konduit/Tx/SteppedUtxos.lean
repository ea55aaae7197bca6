import Konduit.Tx.Batch
import Konduit.Tx.Reading
import Konduit.Tx2.Consumer

/-!
# The first builder's batch

Channels with their steps, sorted by what they spend, and the transaction that is made of
them.  Every channel continues at the address it was found at, so main accepts the transaction
just when each step is accepted on its own, and the constants that are written again are the
channel's own (`SteppedUtxos.validates_iff`).
-/

open Lib

namespace Konduit.Tx

open Data Cardano
open Kernel (OutputReference Verified)

/-! ### Channels on the ledger -/

/-- Of what the builders write, a channel is read with a datum of its own. -/
theorem own_of_channelOutput {hash ownHash : Kernel.ScriptHash} {address : Kernel.Address}
    {lovelace : UInt64} {constants : Constants} {stage : Stage} {channel : Channel}
    (h : Channel.tryFrom hash (channelOutput ownHash address lovelace constants stage) =
      .ok channel) :
    channel.Own (channelOutput ownHash address lovelace constants stage) := by
  obtain ⟨channel', hread, rfl⟩ := Channel.tryFrom_eq_ok.mp h
  have hreads := Tx2.Channel.reads_of_onChain hread (channel_channelOutput _ _ _ _ _)
  exact hreads.own_iff.mpr ⟨constants.asRead_toKernel, stage.asRead_toKernel⟩

/-- An output on the ledger, with a step of the channel that was read off it. -/
structure SteppedUtxo (hash : Kernel.ScriptHash) where
  utxo : Kernel.Input
  data : Stepped
  read : Channel.tryFrom hash utxo.output = .ok data.channel

namespace SteppedUtxo

variable {hash : Kernel.ScriptHash}

/-- The step of a channel. -/
def step (self : SteppedUtxo hash) : Step :=
  match self.data.stepTo with
  | .cont step _ => .cont step
  | .eol step => .eol step

/-- The continuing output, at the address of the output that is spent. -/
def contOutput (self : SteppedUtxo hash) : Option Kernel.Output :=
  self.data.contData.map fun channel =>
    channelOutput hash self.utxo.output.address channel.bufferedAmount channel.constants
      channel.stage

/-- Who has to sign for the step. -/
def signer (self : SteppedUtxo hash) : VerifyingKey :=
  stepSigner self.data.channel.constants self.step

/-- What main is to verify. -/
def verified (self : SteppedUtxo hash) : Verified :=
  ⟨self.utxo, self.step.toKernel, self.contOutput, self.signer.bytes.1⟩

end SteppedUtxo

/-- A channel to be opened, with its delegate. -/
structure Open where
  data : Channel
  delegation : Option Kernel.Credential

/-- The output of a channel that is opened. -/
def Open.output (self : Open) (hash : Kernel.ScriptHash) : Kernel.Output :=
  channelOutput hash (Tx2.konduitAddress hash self.delegation) self.data.bufferedAmount
    self.data.constants self.data.stage

/-! ### Bounds -/

/-- The times that lie between both bounds. -/
def Bounds.intersect (self other : Bounds) : Bounds where
  lower :=
    match self.lower, other.lower with
    | some a, some b => some (max a b)
    | a, b => a.or b
  upper :=
    match self.upper, other.upper with
    | some a, some b => some (min a b)
    | a, b => a.or b

/-- The bounds as slots. -/
def Bounds.validity (self : Bounds) (params : ProtocolParameters) : ValidityInterval :=
  Tx2.Interval.validity ⟨self.lower, self.upper⟩ params

/-! ### The batch -/

/-- Stepped channels in the order of what they spend. -/
structure SteppedUtxos (hash : Kernel.ScriptHash) where
  items : List (SteppedUtxo hash)
  sorted : items.Pairwise fun a b =>
    (compare a.utxo.outputReference b.utxo.outputReference).isLE = true

namespace SteppedUtxos

variable {hash : Kernel.ScriptHash}

/-- The channels in the order of their places. -/
def ofVec (value : List (SteppedUtxo hash)) : SteppedUtxos hash where
  items := value.mergeSort fun a b =>
    (compare a.utxo.outputReference b.utxo.outputReference).isLE
  sorted := OutputReference.pairwise_mergeSort (fun x => x.utxo.outputReference) value

/-- The steps, in the order of the places. -/
def steps (self : SteppedUtxos hash) : List Step := self.items.map SteppedUtxo.step

/-- The inputs with their redeemers. -/
def inputs (self : SteppedUtxos hash) : List (OutputReference × Redeemer) :=
  batchInputs (self.items.map fun x => x.utxo.outputReference) self.steps

/-- The continuing outputs. -/
def outputs (self : SteppedUtxos hash) : List Kernel.Output :=
  self.items.filterMap SteppedUtxo.contOutput

/-- Who has to sign, each once. -/
def signers (self : SteppedUtxos hash) : List VerifyingKey :=
  dedupSigners (self.items.map SteppedUtxo.signer)

/-- The hashes of the keys that have to sign. -/
def specifiedSignatories (self : SteppedUtxos hash) (crypto : Crypto) : List (BytesN 28) :=
  self.signers.map fun key => crypto.blake2b224 key.bytes.1

/-- The bounds that all steps allow. -/
def bounds (self : SteppedUtxos hash) : Bounds :=
  self.items.foldl (fun bounds item => bounds.intersect item.data.bounds) ⟨none, none⟩

end SteppedUtxos

/-- Why no transaction is made of a batch. -/
inductive TxError where
  /-- Channels are spent, and there is no reference script for them. -/
  | missingReference

/-- The transaction of a batch with the channels to be opened.  The fuel is given as it was
selected, and the change as it was computed. -/
def tx (crypto : Crypto) (params : ProtocolParameters) (reference : Option OutputReference)
    {hash : Kernel.ScriptHash} (steppeds : SteppedUtxos hash) (opens : List Open)
    (fuel : List OutputReference) (change : Option Change) : Except TxError TransactionBody :=
  if !steppeds.inputs.isEmpty && reference.isNone then .error .missingReference
  else
    .ok (.build (withFuel steppeds.inputs fuel) (steppeds.outputs ++ opens.map (Open.output · hash))
      (steppeds.specifiedSignatories crypto) (steppeds.bounds.validity params) change)

/-! ### Main accepts the batch -/

namespace SteppedUtxos

variable {crypto : Crypto} {hash : Kernel.ScriptHash}

/-- Each step is accepted on its own. -/
def Accepted (self : SteppedUtxos hash) (crypto : Crypto) (bounds : Kernel.Bounds) : Prop :=
  ∀ x ∈ self.items, ∀ constants stage, x.utxo.output.channel = some ⟨hash, constants, stage⟩ →
    ∃ vkey, x.data.run crypto bounds constants x.utxo.output.value stage = some vkey

/-- The constants of each channel that is to continue are its own. -/
def OwnConstants (self : SteppedUtxos hash) : Prop :=
  ∀ x ∈ self.items, ∀ step vars, x.data.stepTo = .cont step vars →
    Data.OwnConstants x.utxo.output x.data.channel.constants

/-- What main is to verify. -/
def verified (self : SteppedUtxos hash) : List Verified := self.items.map SteppedUtxo.verified

end SteppedUtxos

section Validates

variable {crypto : Crypto} {hash : Kernel.ScriptHash}

/-- The validator finds a channel as well. -/
lemma SteppedUtxo.onChain (self : SteppedUtxo hash) :
    self.utxo.output.atScript hash = true ∧ ∃ constants stage,
      self.utxo.output.channel = some ⟨hash, constants, stage⟩ ∧
        self.data.channel.constants.toKernel = constants.asRead := by
  obtain ⟨channel, hread, heq⟩ := Channel.tryFrom_eq_ok.mp self.read
  obtain ⟨constants, stage, hreads⟩ := Tx2.Channel.reads_of_tryFrom hread
  refine ⟨by simp [Kernel.Output.atScript, hreads.address], constants, stage, hreads.onChain, ?_⟩
  rw [← heq]
  exact hreads.constants

lemma address_channelOutput (hash : Kernel.ScriptHash) (address : Kernel.Address)
    (lovelace : UInt64) (constants : Constants) (stage : Stage) :
    (channelOutput hash address lovelace constants stage).address = address := rfl

lemma SteppedUtxo.shaped (self : SteppedUtxo hash) : self.verified.Shaped hash := by
  obtain ⟨-, constants, stage, honChain, hread⟩ := self.onChain
  obtain ⟨utxo, ⟨channel, stepTo, _⟩, _⟩ := self
  refine ⟨?_, ?_, _, stage, honChain, (signer_eq_stepSigner hread _).symm⟩
  · cases stepTo with
    | cont step vars => exact .inl ⟨_, _, rfl, rfl⟩
    | eol step => exact .inr ⟨_, rfl, rfl⟩
  · cases stepTo with
    | cont step vars =>
      rintro output houtput
      rw [← Option.some.inj houtput]
      exact address_channelOutput _ _ _ _ _
    | eol step => exact fun _ h => nomatch h

/-- What main is to verify is valid just when the step is accepted on its own, and the constants
are the channel's own if it is to continue. -/
lemma SteppedUtxo.valid_iff (self : SteppedUtxo hash) {bounds : Kernel.Bounds} :
    self.verified.Valid crypto hash bounds ↔
      (∀ constants stage, self.utxo.output.channel = some ⟨hash, constants, stage⟩ →
        ∃ vkey, self.data.run crypto bounds constants self.utxo.output.value stage =
          some vkey) ∧
      ∀ step vars, self.data.stepTo = .cont step vars →
        Data.OwnConstants self.utxo.output self.data.channel.constants := by
  obtain ⟨-, constants, stage, honChain, hread⟩ := self.onChain
  have haccepted : (∀ constants stage,
      self.utxo.output.channel = some ⟨hash, constants, stage⟩ →
        ∃ vkey, self.data.run crypto bounds constants self.utxo.output.value stage = some vkey) ↔
      ∃ vkey, self.data.run crypto bounds constants self.utxo.output.value stage = some vkey := by
    refine ⟨fun h => h _ _ honChain, fun h constants' stage' honChain' => ?_⟩
    obtain ⟨-, rfl, rfl⟩ := Kernel.Datum.mk.inj (Option.some.inj (honChain.symm.trans honChain'))
    exact h
  rw [haccepted]
  obtain ⟨utxo, ⟨channel, stepTo, _⟩, _⟩ := self
  cases stepTo with
  | cont step vars =>
    exact (valid_cont_iff honChain hread).trans
      (and_congr_right' ⟨fun h _ _ _ => h, fun h => h _ _ rfl⟩)
  | eol step =>
    exact (valid_eol_iff honChain hread).trans
      (iff_self_and.mpr fun _ _ _ hstep => nomatch hstep)

namespace SteppedUtxos

variable {steppeds : SteppedUtxos hash}

lemma valid_iff {bounds : Kernel.Bounds} :
    (∀ v ∈ steppeds.verified, v.Valid crypto hash bounds) ↔
      steppeds.Accepted crypto bounds ∧ steppeds.OwnConstants := by
  rw [verified, List.forall_mem_map, Accepted, OwnConstants, ← forall₂_and]
  exact forall₂_congr fun x _ => x.valid_iff

/-- **The first builder's batch.**  Main finds the steps and the outputs of a batch as they were
built, and accepts the transaction just when each step is accepted on its own and the constants of
each channel that is to continue are its own. -/
theorem validates_iff {params : ProtocolParameters} {reference : Option OutputReference}
    {opens : List Open} {fuel : List OutputReference} {change : Option Change}
    {body : TransactionBody} (hbuild : tx crypto params reference steppeds opens fuel change =
      .ok body) {utxos : OutputReference → Option Kernel.Output}
    (hutxos : ∀ x ∈ steppeds.items, utxos x.utxo.outputReference = some x.utxo.output)
    (hfuel : FuelOff hash utxos fuel) {t : Kernel.Transaction}
    {redeemers : OutputReference → Kernel.Redeemer}
    (hshown : body.Shown utxos params.slotConfig t redeemers) :
    Aligned crypto hash t redeemers steppeds.verified ∧
      (t.Validates crypto hash redeemers ↔
        steppeds.Accepted crypto t.validityRange ∧ steppeds.OwnConstants) := by
  rw [tx] at hbuild
  split_ifs at hbuild
  obtain rfl := Except.ok.inj hbuild
  have horefs : steppeds.verified.map oref =
      steppeds.items.map fun x => x.utxo.outputReference := by
    rw [verified, List.map_map]
    rfl
  have houtputs : steppeds.verified.filterMap Verified.output = steppeds.outputs := by
    rw [verified, List.filterMap_map]
    rfl
  rw [inputs, ← horefs, ← houtputs] at hshown
  have hchannels : Channels hash utxos steppeds.verified := by
    refine ⟨?_, ?_, ?_⟩
    · refine OutputReference.pairwise_before ?_ (nodup_of_shown hshown)
      rw [horefs, List.pairwise_map]
      exact steppeds.sorted
    · exact List.forall_mem_map.mpr hutxos
    · exact List.forall_mem_map.mpr fun x _ => x.onChain.1
  have hsteps : steppeds.steps.map Step.toKernel = steppeds.verified.map Verified.step := by
    rw [steps, verified, List.map_map, List.map_map]
    rfl
  have hsigned : ∀ v ∈ steppeds.verified,
      crypto.blake2b224 v.vkey ∈ steppeds.specifiedSignatories crypto := by
    refine List.forall_mem_map.mpr fun x hx => ?_
    refine List.mem_map.mpr ⟨x.signer, ?_, rfl⟩
    exact mem_dedupSigners.mpr (List.mem_map_of_mem hx)
  have hshaped : ∀ v ∈ steppeds.verified, v.Shaped hash :=
    List.forall_mem_map.mpr fun x _ => x.shaped
  rw [← valid_iff]
  exact validates_iff_of_shown hchannels hfuel hsteps hsigned hshown hshaped

end SteppedUtxos

end Validates

end Konduit.Tx
