import Konduit.Tx.SteppedUtxos

/-!
# The second builder's batch

Channels are staged as they were read off outputs, wants are resolved to wills, and the
wills are built into one transaction.  A channel remembers its delegate but not its address,
so its output goes to the address that the builder makes of the delegate.
-/

open Lib

namespace Konduit.Tx2

open Data Tx Cardano
open Kernel (OutputReference Verified)

/-! ### The stage -/

/-- Values by what they are found at, in the order of the references. -/
abbrev InputMap (α : Type) := Std.TreeMap OutputReference α

/-- The step that is shown to the kernel. -/
def Will.toStep : Will → Step
  | cont _ step => .cont step.toStep
  | eol step => .eol step.toStep

/-- The channel that continues. -/
def Will.continuing : Will → Option Channel
  | cont output _ => some output
  | eol _ => none

/-- Channels with what is to become of them: every will is what a want of its channel was
resolved to. -/
structure StagedTx (crypto : Crypto) where
  interval : Interval
  channels : InputMap Channel
  wills : InputMap Will
  /-- The channels to be opened, a set. -/
  opens : List Channel
  resolved : ∀ (input : OutputReference) (will : Will), wills[input]? = some will →
    ∃ channel want, channels[input]? = some channel ∧
      channel.resolve crypto want interval = .ok will

namespace StagedTx

/-- Why a want is refused. -/
inductive Error where
  | missingInput
  | step (e : StepError)

/-- Why nothing is built. -/
inductive BuildError where
  | missingReference
  | missingUtxo

variable {crypto : Crypto}

/-- Nothing is staged. -/
def new (crypto : Crypto) (interval : Interval) (channels : InputMap Channel) :
    StagedTx crypto :=
  ⟨interval, channels, ∅, [], by simp⟩

/-- Resolve a want for a channel; the last want of a channel stays. -/
def want (self : StagedTx crypto) (input : OutputReference) (want : Want) :
    Except Error (StagedTx crypto) :=
  match hchannel : self.channels[input]? with
  | none => .error .missingInput
  | some channel =>
    match hwill : channel.resolve crypto want self.interval with
    | .error e => .error (.step e)
    | .ok will =>
      .ok { self with
        wills := self.wills.insert input will
        resolved := by
          intro input' will' h
          rw [Std.TreeMap.getElem?_insert] at h
          split_ifs at h with heq
          · obtain rfl := Std.LawfulEqCmp.eq_of_compare heq
            obtain rfl := Option.some.inj h
            exact ⟨channel, want, hchannel, hwill⟩
          · exact self.resolved input' will' h }

/-- Take back what was wanted of a channel. -/
def dropIntent (self : StagedTx crypto) (input : OutputReference) : StagedTx crypto :=
  { self with
    wills := self.wills.erase input
    resolved := by
      intro input' will' h
      rw [Std.TreeMap.getElem?_erase] at h
      split_ifs at h
      exact self.resolved input' will' h }

/-- Open a channel, unless it is to be opened already. -/
def addOpen (self : StagedTx crypto) (channel : Channel) : StagedTx crypto :=
  { self with opens := if channel ∈ self.opens then self.opens else self.opens ++ [channel] }

/-- After it is built a stage has no wills and no opens. -/
def cleared (self : StagedTx crypto) : StagedTx crypto :=
  { self with wills := ∅, opens := [], resolved := by simp }

/-! ### What is built -/

/-- Who has to sign, each once. -/
def signers (self : StagedTx crypto) : List VerifyingKey :=
  dedupSigners <| self.wills.toList.filterMap fun x =>
    self.channels[x.1]?.map fun channel => x.2.signer channel.constants

/-- The output of a channel, at the address of its delegate. -/
def channelOutput (hash : Kernel.ScriptHash) (channel : Channel) : Kernel.Output :=
  Tx.channelOutput hash (konduitAddress hash channel.delegation) channel.bufferedAmount
    channel.constants channel.stage

/-- The outputs of the channels that go on, and of those that are opened. -/
def outputs (self : StagedTx crypto) (hash : Kernel.ScriptHash) : List Kernel.Output :=
  (self.wills.toList.filterMap fun x => x.2.continuing.map (channelOutput hash)) ++
    self.opens.map (channelOutput hash)

/-- The steps, in the order of the inputs. -/
def steps (self : StagedTx crypto) : List Step := self.wills.toList.map fun x => x.2.toStep

/-- The inputs with their redeemers. -/
def inputs (self : StagedTx crypto) : List (OutputReference × Redeemer) :=
  batchInputs (self.wills.toList.map Prod.fst) self.steps

/-- The transaction of the stage.  The fuel is given as it was selected, and the change as it
was computed. -/
def build (self : StagedTx crypto) (hash : Kernel.ScriptHash)
    (utxos : OutputReference → Option Kernel.Output) (params : ProtocolParameters)
    (reference : Option OutputReference) (fuel : List OutputReference) (change : Option Change) :
    Except BuildError (TransactionBody × StagedTx crypto) :=
  if !self.wills.isEmpty && reference.isNone then .error .missingReference
  else if self.wills.toList.any fun x => (utxos x.1).isNone then .error .missingUtxo
  else
    .ok (.build (withFuel self.inputs fuel) (self.outputs hash)
      (self.signers.map fun key => crypto.blake2b224 key.bytes.1) (self.interval.validity params)
      change, self.cleared)

end StagedTx

/-! ### Resolving keeps the channel -/

/-- What continues a channel has its delegate and its constants. -/
lemma Channel.stepped_of_resolve {crypto : Crypto} {channel output : Channel} {want : Want}
    {interval : Interval} {step : WillCont}
    (h : channel.resolve crypto want interval = .ok (.cont output step)) :
    output.delegation = channel.delegation ∧ output.constants = channel.constants := by
  -- whatever is wanted is refused, ends the channel, or steps it
  cases want <;>
    simp only [resolve, wantAdd, wantSub, wantClose, wantRespond, wantElapse, wantEnd, wantUnlock,
      wantExpire] at h <;>
    (repeat' split at h) <;>
    cases h <;>
    exact ⟨rfl, rfl⟩

/-- The second builder has the key of the step sign. -/
lemma Will.signer_eq (will : Will) (constants : Constants) :
    will.signer constants = stepSigner constants will.toStep := by
  have hadaptor : will.isAdaptor = will.toStep.isAdaptor := by
    cases will with
    | cont output step => cases step <;> rfl
    | eol step => rfl
  rw [signer, hadaptor, stepSigner, Step.isConsumer]
  cases will.toStep.isAdaptor <;> rfl

/-! ### Addresses -/

/-- The stake part of the address is a pointer. -/
def atPointer (address : Kernel.Address) : Bool :=
  match address.stakeCredential with
  | some (.pointer _ _ _) => true
  | _ => false

@[simp] lemma atPointer_konduitAddress (hash : Kernel.ScriptHash)
    (delegation : Option Kernel.Credential) :
    atPointer (konduitAddress hash delegation) = false := by
  cases delegation <;> rfl

/-- An address of the script is the one that is made of its delegate, unless it has a
pointer. -/
lemma konduitAddress_delegationOf {hash : Kernel.ScriptHash} {address : Kernel.Address}
    (hpayment : address.paymentCredential = .script hash) (hpointer : atPointer address = false) :
    konduitAddress hash (delegationOf address) = address := by
  obtain ⟨payment, stake⟩ := address
  obtain rfl : payment = .script hash := hpayment
  rcases stake with _ | ⟨credential | _⟩
  · rfl
  · rfl
  · cases hpointer

/-! ### When main accepts the batch -/

namespace StagedTx

variable {crypto : Crypto}

/-- The channels were read off outputs on the ledger. -/
def Reads (self : StagedTx crypto) (hash : Kernel.ScriptHash)
    (utxos : OutputReference → Option Kernel.Output) : Prop :=
  ∀ (input : OutputReference) (channel : Channel), self.channels[input]? = some channel →
    ∃ output, utxos input = some output ∧ Channel.tryFrom hash output = .ok channel

/-- Each step is accepted on its own. -/
def Accepted (self : StagedTx crypto) (hash : Kernel.ScriptHash)
    (utxos : OutputReference → Option Kernel.Output) (bounds : Kernel.Bounds) : Prop :=
  ∀ (input : OutputReference) (will : Will), self.wills[input]? = some will →
    ∀ output constants stage, utxos input = some output →
      output.channel = some ⟨hash, constants, stage⟩ →
      ∃ vkey, will.run crypto bounds constants output.value stage = some vkey

/-- No channel that is to continue is found at an address with a pointer. -/
def NoPointers (self : StagedTx crypto) (utxos : OutputReference → Option Kernel.Output) : Prop :=
  ∀ (input : OutputReference) (channel : Channel) (step : WillCont),
    self.wills[input]? = some (.cont channel step) →
    ∀ output, utxos input = some output → atPointer output.address = false

/-- The constants of each channel that is to continue are its own. -/
def OwnConstants (self : StagedTx crypto) (utxos : OutputReference → Option Kernel.Output) : Prop :=
  ∀ (input : OutputReference) (channel : Channel) (step : WillCont),
    self.wills[input]? = some (.cont channel step) →
    ∀ output, utxos input = some output → Data.OwnConstants output channel.constants

/-- A channel that is spent, with what is to become of it. -/
structure Spent where
  input : Kernel.Input
  channel : Channel
  will : Will

/-- What main is to verify. -/
def Spent.verified (hash : Kernel.ScriptHash) (x : Spent) : Verified :=
  ⟨x.input, x.will.toStep.toKernel, x.will.continuing.map (channelOutput hash),
    (x.will.signer x.channel.constants).bytes.1⟩

/-- The channels that are spent, in order. -/
def spent (self : StagedTx crypto) (utxos : OutputReference → Option Kernel.Output) :
    List Spent :=
  self.wills.toList.filterMap fun x => do
    let output ← utxos x.1
    let channel ← self.channels[x.1]?
    return ⟨⟨x.1, output⟩, channel, x.2⟩

section Spent

variable {self : StagedTx crypto} {hash : Kernel.ScriptHash}
  {utxos : OutputReference → Option Kernel.Output}

lemma mem_spent {x : Spent} :
    x ∈ self.spent utxos ↔ self.wills[x.input.outputReference]? = some x.will ∧
      utxos x.input.outputReference = some x.input.output ∧
      self.channels[x.input.outputReference]? = some x.channel := by
  obtain ⟨⟨oref, output⟩, channel, will⟩ := x
  simp only [spent, List.mem_filterMap, Prod.exists, Std.TreeMap.mem_toList_iff_getElem?_eq_some,
    Option.bind_eq_bind, Option.bind_eq_some_iff, Option.pure_def, Option.some.injEq,
    Spent.mk.injEq, Kernel.Input.mk.injEq]
  constructor
  · rintro ⟨_, _, hwill, _, houtput, _, hchannel, ⟨rfl, rfl⟩, rfl, rfl⟩
    exact ⟨hwill, houtput, hchannel⟩
  · rintro ⟨hwill, houtput, hchannel⟩
    exact ⟨_, _, hwill, _, houtput, _, hchannel, ⟨rfl, rfl⟩, rfl, rfl⟩

/-- Every will is spent, in the order of the wills. -/
lemma map_spent (hreads : self.Reads hash utxos) :
    (self.spent utxos).map (fun x => (x.input.outputReference, x.will)) = self.wills.toList := by
  rw [spent, List.map_filterMap]
  refine Eq.trans (List.filterMap_congr fun x hx => ?_) List.filterMap_some
  obtain ⟨input, will⟩ := x
  have hwill := Std.TreeMap.mem_toList_iff_getElem?_eq_some.mp hx
  obtain ⟨channel, _, hchannel, -⟩ := self.resolved input will hwill
  obtain ⟨output, houtput, -⟩ := hreads input channel hchannel
  simp only [houtput, hchannel, Option.bind_eq_bind, Option.bind_some, Option.pure_def,
    Option.map_some]

lemma Spent.resolved {x : Spent} (hx : x ∈ self.spent utxos) :
    ∃ want, x.channel.resolve crypto want self.interval = .ok x.will := by
  obtain ⟨hwill, -, hchannel⟩ := mem_spent.mp hx
  obtain ⟨channel, want, hchannel', hresolve⟩ := self.resolved _ _ hwill
  obtain rfl := Option.some.inj (hchannel.symm.trans hchannel')
  exact ⟨want, hresolve⟩

lemma Spent.reads (hreads : self.Reads hash utxos) {x : Spent} (hx : x ∈ self.spent utxos) :
    ∃ constants stage, x.channel.Reads hash x.input.output constants stage := by
  obtain ⟨-, houtput, hchannel⟩ := mem_spent.mp hx
  obtain ⟨output, houtput', htryFrom⟩ := hreads _ _ hchannel
  obtain rfl := Option.some.inj (houtput.symm.trans houtput')
  exact Channel.reads_of_tryFrom htryFrom

/-- The output goes to the address of the input, unless this has a pointer. -/
lemma Spent.shaped (hreads : self.Reads hash utxos) {x : Spent} (hx : x ∈ self.spent utxos)
    (hpointers : self.NoPointers utxos) : (x.verified hash).Shaped hash := by
  obtain ⟨want, hresolve⟩ := Spent.resolved hx
  obtain ⟨constants, stage, hread⟩ := Spent.reads hreads hx
  obtain ⟨hwill, houtput, -⟩ := mem_spent.mp hx
  obtain ⟨input, channel, will⟩ := x
  refine ⟨?_, ?_, _, stage, hread.onChain, ?_⟩
  · cases will with
    | cont output step => exact .inl ⟨_, _, rfl, rfl⟩
    | eol step => exact .inr ⟨_, rfl, rfl⟩
  · cases will with
    | cont output step =>
      obtain ⟨hdelegation, -⟩ := Channel.stepped_of_resolve hresolve
      rintro found hfound
      rw [← Option.some.inj hfound]
      show konduitAddress hash output.delegation = input.output.address
      rw [hdelegation, hread.delegation]
      exact konduitAddress_delegationOf hread.address (hpointers _ _ _ hwill _ houtput)
    | eol step => exact fun _ h => absurd h (by simp [Spent.verified, Will.continuing])
  · rw [Spent.verified, Will.signer_eq]
    exact (signer_eq_stepSigner hread.constants _).symm

/-- Unless there is a pointer, what main is to verify is valid just when the step is accepted on
its own, and the constants are the channel's own if it is to continue. -/
lemma Spent.valid_iff {bounds : Kernel.Bounds} (hreads : self.Reads hash utxos) {x : Spent}
    (hx : x ∈ self.spent utxos) (hpointers : self.NoPointers utxos) :
    (x.verified hash).Valid crypto hash bounds ↔
      (∀ constants stage, x.input.output.channel = some ⟨hash, constants, stage⟩ →
        ∃ vkey, x.will.run crypto bounds constants x.input.output.value stage = some vkey) ∧
      ∀ channel step, x.will = .cont channel step →
        Data.OwnConstants x.input.output channel.constants := by
  obtain ⟨want, hresolve⟩ := Spent.resolved hx
  obtain ⟨constants, stage, hread⟩ := Spent.reads hreads hx
  obtain ⟨hwill, houtput, -⟩ := mem_spent.mp hx
  have honChain := hread.onChain
  have haccepted : (∀ constants stage, x.input.output.channel = some ⟨hash, constants, stage⟩ →
        ∃ vkey, x.will.run crypto bounds constants x.input.output.value stage = some vkey) ↔
      ∃ vkey, x.will.run crypto bounds constants x.input.output.value stage = some vkey := by
    refine ⟨fun h => h _ _ honChain, fun h constants' stage' honChain' => ?_⟩
    obtain ⟨-, rfl, rfl⟩ := Kernel.Datum.mk.inj (Option.some.inj (honChain.symm.trans honChain'))
    exact h
  rw [haccepted]
  obtain ⟨input, channel, will⟩ := x
  rw [Spent.verified, Will.signer_eq]
  cases will with
  | cont output step =>
    obtain ⟨hdelegation, hconstants⟩ := Channel.stepped_of_resolve hresolve
    have haddress : konduitAddress hash output.delegation = input.output.address := by
      rw [hdelegation, hread.delegation]
      exact konduitAddress_delegationOf hread.address (hpointers _ _ _ hwill _ houtput)
    simp only [Will.continuing, Option.map_some, channelOutput, haddress, hconstants]
    refine (valid_cont_iff honChain hread.constants).trans (and_congr_right' ?_)
    rw [← hconstants]
    exact ⟨fun h _ _ heq => (Will.cont.inj heq).1 ▸ h, fun h => h _ _ rfl⟩
  | eol step =>
    exact (valid_eol_iff honChain hread.constants).trans
      (iff_self_and.mpr fun _ _ _ hstep => nomatch hstep)

/-- What main is to verify, in order. -/
def verified (self : StagedTx crypto) (hash : Kernel.ScriptHash)
    (utxos : OutputReference → Option Kernel.Output) : List Verified :=
  (self.spent utxos).map (Spent.verified hash)

lemma map_oref_verified (hreads : self.Reads hash utxos) :
    (self.verified hash utxos).map oref = self.wills.toList.map Prod.fst := by
  rw [← map_spent hreads, verified, List.map_map, List.map_map]
  rfl

lemma map_step_verified (hreads : self.Reads hash utxos) :
    self.steps.map Step.toKernel = (self.verified hash utxos).map Verified.step := by
  rw [steps, ← map_spent hreads, verified, List.map_map, List.map_map, List.map_map]
  rfl

lemma outputs_eq (hreads : self.Reads hash utxos) :
    self.outputs hash = (self.verified hash utxos).filterMap Verified.output ++
      self.opens.map (channelOutput hash) := by
  rw [outputs, ← map_spent hreads, verified, List.filterMap_map, List.filterMap_map]
  rfl

lemma channels_verified (hreads : self.Reads hash utxos) :
    Channels hash utxos (self.verified hash utxos) := by
  refine ⟨?_, ?_, ?_⟩
  · rw [map_oref_verified hreads, List.pairwise_map]
    exact Std.TreeMap.ordered_keys_toList
  · exact List.forall_mem_map.mpr fun x hx => (mem_spent.mp hx).2.1
  · refine List.forall_mem_map.mpr fun x hx => ?_
    obtain ⟨_, _, hread⟩ := Spent.reads hreads hx
    simp [Spent.verified, Kernel.Input.atScript, Kernel.Output.atScript, hread.address]

lemma signed_verified :
    ∀ v ∈ self.verified hash utxos,
      crypto.blake2b224 v.vkey ∈ self.signers.map fun key => crypto.blake2b224 key.bytes.1 := by
  refine List.forall_mem_map.mpr fun x hx => ?_
  obtain ⟨hwill, -, hchannel⟩ := mem_spent.mp hx
  refine List.mem_map.mpr ⟨x.will.signer x.channel.constants, ?_, rfl⟩
  refine mem_dedupSigners.mpr (List.mem_filterMap.mpr ⟨(x.input.outputReference, x.will), ?_, ?_⟩)
  · exact Std.TreeMap.mem_toList_iff_getElem?_eq_some.mpr hwill
  · rw [hchannel, Option.map_some]

/-- Everything that is built with a datum is at an address without a pointer. -/
lemma atPointer_of_mem_outputs {output : Kernel.Output} (h : output ∈ self.outputs hash) :
    atPointer output.address = false := by
  have hchannel : ∃ channel, channelOutput hash channel = output := by
    rcases List.mem_append.mp h with h | h
    · obtain ⟨x, -, hx⟩ := List.mem_filterMap.mp h
      obtain ⟨channel, -, rfl⟩ := Option.map_eq_some_iff.mp hx
      exact ⟨channel, rfl⟩
    · obtain ⟨channel, -, rfl⟩ := List.mem_map.mp h
      exact ⟨channel, rfl⟩
  obtain ⟨channel, rfl⟩ := hchannel
  exact atPointer_konduitAddress hash channel.delegation

/-- Main finds no output for a channel at a pointer: all that carry a channel are elsewhere, and
the change carries none. -/
lemma noPointers_of_checks {change : Option Change} {t : Kernel.Transaction}
    (houtputs : t.outputs = self.outputs hash ++ (change.map Change.output).toList)
    (hinputs : (self.verified hash utxos).map Verified.input =
      t.inputs.filter (Kernel.Input.atScript hash)) {vs : List Verified}
    (hchecks : Kernel.Main.Checks crypto hash ((self.verified hash utxos).map Verified.step) t vs) :
    self.NoPointers utxos := by
  intro input channel step hwill output houtput
  obtain ⟨channel', _, hchannel, -⟩ := self.resolved _ _ hwill
  have hspent : (⟨⟨input, output⟩, channel', .cont channel step⟩ : Spent) ∈ self.spent utxos :=
    mem_spent.mpr ⟨hwill, houtput, hchannel⟩
  -- main verifies this channel by the step that was built for it
  obtain ⟨i, hi⟩ := List.mem_iff_getElem?.mp (List.mem_map_of_mem (f := Spent.verified hash) hspent)
  have hinput := congrArg (·[i]?) (hchecks.inputs.trans hinputs.symm)
  have hstep := congrArg (·[i]?) hchecks.steps
  simp only [List.getElem?_map] at hinput hstep
  rw [show (self.verified hash utxos)[i]? = some _ from hi, Option.map_some] at hinput hstep
  obtain ⟨v, hv, hinput⟩ := Option.map_eq_some_iff.mp hinput
  rw [hv, Option.map_some, Option.some.injEq] at hstep
  have hmem := List.mem_of_getElem? hv
  have hvalid := hchecks.valid v hmem
  rcases hvalid.output_cases with ⟨_, found, -, hfound⟩ | ⟨_, heol, -⟩
  · obtain ⟨_, _, hcontinues⟩ := hvalid.continues hfound
    have haddress : found.address = output.address := by
      rw [hcontinues.address, hinput]
      rfl
    rw [← haddress]
    have hin := hchecks.mem_outputs hmem hfound
    rw [houtputs] at hin
    rcases List.mem_append.mp hin with hin | hin
    · exact atPointer_of_mem_outputs hin
    · obtain ⟨c, -, rfl⟩ := Option.map_eq_some_iff.mp (Option.mem_toList.mp hin)
      cases hcontinues.channel
  · rw [heol] at hstep
    cases hstep

/-- All that is spent is valid just when each step is accepted on its own and the constants of what
is to continue are the channels' own. -/
lemma forall_valid_iff {bounds : Kernel.Bounds} (hreads : self.Reads hash utxos)
    (hpointers : self.NoPointers utxos) :
    (∀ v ∈ self.verified hash utxos, v.Valid crypto hash bounds) ↔
      self.Accepted hash utxos bounds ∧ self.OwnConstants utxos := by
  have hspent : ∀ {input will output}, self.wills[input]? = some will →
      utxos input = some output → ∃ channel, (⟨⟨input, output⟩, channel, will⟩ : Spent) ∈
        self.spent utxos := by
    intro input will output hwill houtput
    obtain ⟨channel, -, hchannel, -⟩ := self.resolved input will hwill
    exact ⟨channel, mem_spent.mpr ⟨hwill, houtput, hchannel⟩⟩
  rw [verified, List.forall_mem_map]
  constructor
  · intro h
    constructor
    · intro input will hwill output constants stage houtput honChain
      obtain ⟨channel, hx⟩ := hspent hwill houtput
      exact ((Spent.valid_iff hreads hx hpointers).mp (h _ hx)).1 _ _ honChain
    · intro input channel step hwill output houtput
      obtain ⟨channel', hx⟩ := hspent hwill houtput
      exact ((Spent.valid_iff hreads hx hpointers).mp (h _ hx)).2 _ _ rfl
  · rintro ⟨haccepted, hown⟩ x hx
    obtain ⟨hwill, houtput, -⟩ := mem_spent.mp hx
    refine (Spent.valid_iff hreads hx hpointers).mpr
      ⟨fun _ _ => haccepted _ _ hwill _ _ _ houtput, fun channel step hstep => ?_⟩
    rw [hstep] at hwill
    exact hown _ _ _ hwill _ houtput

/-- **The second builder's batch.**  Main finds the steps and the outputs of a batch as they
were built, and accepts the transaction just when each step is accepted on its own, no channel that
is to continue is at an address with a pointer, and their constants are their own. -/
theorem validates_iff {params : ProtocolParameters} {reference : Option OutputReference}
    {fuel : List OutputReference} {change : Option Change} {body : TransactionBody}
    {self' : StagedTx crypto}
    (hbuild : self.build hash utxos params reference fuel change = .ok (body, self'))
    (hreads : self.Reads hash utxos) (hfuel : FuelOff hash utxos fuel) {t : Kernel.Transaction}
    {redeemers : OutputReference → Kernel.Redeemer}
    (hshown : body.Shown utxos params.slotConfig t redeemers) :
    Aligned crypto hash t redeemers (self.verified hash utxos) ∧
      (t.Validates crypto hash redeemers ↔
        self.Accepted hash utxos t.validityRange ∧ self.NoPointers utxos ∧
          self.OwnConstants utxos) := by
  rw [build] at hbuild
  split_ifs at hbuild
  obtain ⟨rfl, -⟩ := Prod.mk.inj (Except.ok.inj hbuild)
  have houtputs := hshown.outputs
  rw [inputs, ← map_oref_verified hreads, outputs_eq hreads] at hshown
  have hchannels := channels_verified hreads
  have hsteps := map_step_verified hreads
  have hinputs := inputs_of_shown hchannels hfuel hshown
  have hredeemers := redeemers_of_shown hsteps hshown
  -- no pointers: each output is at the address of its input
  have haligned : self.NoPointers utxos →
      Aligned crypto hash t redeemers (self.verified hash utxos) ∧
        (t.Validates crypto hash redeemers ↔
          self.Accepted hash utxos t.validityRange ∧ self.OwnConstants utxos) := by
    intro hpointers
    rw [← forall_valid_iff hreads hpointers]
    exact validates_iff_of_shown hchannels hfuel hsteps signed_verified hshown
      (List.forall_mem_map.mpr fun x hx => Spent.shaped hreads hx hpointers)
  have hpointers : ∀ {vs}, Kernel.Main.Checks crypto hash
      ((self.verified hash utxos).map Verified.step) t vs → self.NoPointers utxos :=
    fun hchecks => noPointers_of_checks houtputs hinputs hchecks
  have hchannel : ∀ v ∈ self.verified hash utxos, ∃ constants stage,
      v.input.output.channel = some ⟨hash, constants, stage⟩ := by
    refine List.forall_mem_map.mpr fun x hx => ?_
    obtain ⟨constants, stage, hread⟩ := Spent.reads hreads hx
    exact ⟨constants, stage, hread.onChain⟩
  refine ⟨⟨hinputs, hredeemers, ?_⟩, fun hvalidates => ?_, fun h => ?_⟩
  · exact fun vs hchecks => (haligned (hpointers hchecks)).1.own vs hchecks
  · obtain ⟨_, hchecks⟩ := (Kernel.validates_iff hinputs hchannel hredeemers).mp hvalidates
    have hnone := hpointers hchecks
    obtain ⟨haccepted, hown⟩ := (haligned hnone).2.mp hvalidates
    exact ⟨haccepted, hnone, hown⟩
  · obtain ⟨haccepted, hnone, hown⟩ := h
    exact (haligned hnone).2.mpr ⟨haccepted, hown⟩

end Spent

end StagedTx

/-- **Batches.**  With fuel that is not locked by the script, main finds the steps and the
outputs of both builders as they were built.  When each step is accepted on its own, it accepts
a batch of the first builder just when the constants of each channel that is to continue are its
own, and a batch of the second builder just when besides none of them is at an address with a
pointer. -/
theorem batch_validates {crypto : Crypto} {hash : Kernel.ScriptHash} {params : ProtocolParameters}
    {utxos : OutputReference → Option Kernel.Output} {reference : Option OutputReference}
    {fuel : List OutputReference} (hfuel : FuelOff hash utxos fuel) {change : Option Change}
    {body : TransactionBody} {t : Kernel.Transaction}
    {redeemers : OutputReference → Kernel.Redeemer}
    (hshown : body.Shown utxos params.slotConfig t redeemers) :
    (∀ staged staged' : StagedTx crypto,
      staged.build hash utxos params reference fuel change = .ok (body, staged') →
      staged.Reads hash utxos → staged.Accepted hash utxos t.validityRange →
      Aligned crypto hash t redeemers (staged.verified hash utxos) ∧
        (t.Validates crypto hash redeemers ↔
          staged.NoPointers utxos ∧ staged.OwnConstants utxos)) ∧
    ∀ (steppeds : SteppedUtxos hash) (opens : List Open),
      Tx.tx crypto params reference steppeds opens fuel change = .ok body →
      (∀ x ∈ steppeds.items, utxos x.utxo.outputReference = some x.utxo.output) →
      steppeds.Accepted crypto t.validityRange →
      Aligned crypto hash t redeemers steppeds.verified ∧
        (t.Validates crypto hash redeemers ↔ steppeds.OwnConstants) := by
  constructor
  · intro staged staged' hbuild hreads haccepted
    obtain ⟨haligned, hiff⟩ := StagedTx.validates_iff hbuild hreads hfuel hshown
    exact ⟨haligned, hiff.trans (and_iff_right haccepted)⟩
  · intro steppeds opens hbuild hutxos haccepted
    obtain ⟨haligned, hiff⟩ := SteppedUtxos.validates_iff hbuild hutxos hfuel hshown
    exact ⟨haligned, hiff.trans (and_iff_right haccepted)⟩

/-! ### A channel that is added to -/

namespace Sample

/-- The place of a channel. -/
def batchRef : OutputReference := ⟨List.replicate 32 0, 0⟩

/-- The place of the fuel. -/
def fuelRef : OutputReference := ⟨List.replicate 32 0, 1⟩

/-- An opened channel with 1 ada. -/
def batchInput (stake : Option Kernel.Referenced) : Kernel.Output :=
  ⟨⟨.script hash, stake⟩, 3_000_000, [], .inlineDatum (.list [.bytes hash,
    .list [.bytes [], .bytes (List.replicate 32 0), .bytes (List.replicate 32 0), .int 86_400_000],
    .constr 0 [.int 0, .list []]]), none⟩

/-- A pointer to a stake registration. -/
def pointer : Option Kernel.Referenced := some (.pointer 0 0 0)

/-- An output of the wallet with 9 ada. -/
def fuelInput : Kernel.Output :=
  ⟨⟨.verificationKey (List.replicate 28 1), none⟩, 9_000_000, [], .noDatum, none⟩

/-- The channel and the fuel. -/
def batchUtxos (stake : Option Kernel.Referenced) (oref : OutputReference) :
    Option Kernel.Output :=
  if oref = batchRef then some (batchInput stake)
  else if oref = fuelRef then some fuelInput
  else none

/-- An add of 5 ada. -/
def batchWill : Will := .cont (channel 6_000_000 (.opened 0 [])) (.add 5_000_000)

/-- The channel is to be added 5 ada to. -/
def staged : StagedTx .noCrypto where
  interval := ⟨none, none⟩
  channels := (∅ : InputMap Channel).insert batchRef (channel 1_000_000 (.opened 0 []))
  wills := (∅ : InputMap Will).insert batchRef batchWill
  opens := []
  resolved := by
    intro input will h
    rw [Std.TreeMap.getElem?_insert] at h
    split_ifs at h with heq
    · obtain rfl := Std.LawfulEqCmp.eq_of_compare heq
      obtain rfl := Option.some.inj h
      exact ⟨_, .add 5_000_000, Std.TreeMap.getElem?_insert_self, rfl⟩
    · simp at h

/-- The same with the first builder. -/
def stepped : SteppedUtxos hash where
  items := [⟨⟨batchRef, batchInput none⟩, ⟨⟨constants, 1_000_000, .opened 0 []⟩,
    .cont .add ⟨6_000_000, .opened 0 []⟩, ⟨none, none⟩⟩, rfl⟩]
  sorted := List.pairwise_singleton _ _

/-- The transaction of the add, as it is built. -/
def batchBody : TransactionBody where
  inputs := [batchRef, fuelRef]
  redeemers := [(0, .main [.cont .add])]
  outputs := [StagedTx.channelOutput hash (channel 6_000_000 (.opened 0 []))]
  requiredSigners := [BytesN.fill 28 0]
  validity := ⟨none, none⟩

/-- The transaction of the add, as the kernel sees it. -/
def batchTx (stake : Option Kernel.Referenced) : Kernel.Transaction where
  inputs := [⟨batchRef, batchInput stake⟩, ⟨fuelRef, fuelInput⟩]
  outputs := [StagedTx.channelOutput hash (channel 6_000_000 (.opened 0 []))]
  validityRange := ⟨.negativeInfinity, .positiveInfinity⟩
  extraSignatories := [List.replicate 28 0]
  datums := []
  distinct := by
    change [batchRef, fuelRef].Nodup
    decide

/-- The channel is spent by main. -/
def batchRedeemer (oref : OutputReference) : Kernel.Redeemer :=
  if oref = batchRef then .main [.stepCont .add] else .defer

lemma shown_batchBody (stake : Option Kernel.Referenced) (params : ProtocolParameters) :
    batchBody.Shown (batchUtxos stake) params.slotConfig (batchTx stake) batchRedeemer := by
  refine ⟨List.Perm.refl _, ?_, ?_, rfl, rfl, rfl, ?_⟩
  · change [batchRef, fuelRef].Pairwise OutputReference.Before
    exact List.pairwise_pair.mpr rfl
  · intro input hin
    rcases List.mem_pair.mp hin with rfl | rfl
    · rfl
    · rfl
  · intro i redeemer input hredeemer hinput
    obtain ⟨rfl, rfl⟩ := Prod.mk.inj (List.mem_singleton.mp hredeemer)
    obtain rfl := Option.some.inj hinput
    rfl

lemma fuelOff_batch (stake : Option Kernel.Referenced) :
    FuelOff hash (batchUtxos stake) [fuelRef] := by
  intro oref hfuel output houtput
  obtain rfl := List.mem_singleton.mp hfuel
  obtain rfl := Option.some.inj houtput
  rfl

lemma withInputs_batch :
    withInputs [(batchRef, some (.main [.cont .add])), (fuelRef, none)] =
      ([batchRef, fuelRef], [(0, .main [.cont .add])]) :=
  withInputs_of_ordered (List.pairwise_pair.mpr rfl)

lemma build_staged (stake : Option Kernel.Referenced) (params : ProtocolParameters) :
    staged.build hash (batchUtxos stake) params (some fuelRef) [fuelRef] none =
      .ok (batchBody, staged.cleared) := by
  have hsigners : staged.signers = [constants.addVkey] := dedupSigners_singleton _
  have hinputs : withInputs (withFuel staged.inputs [fuelRef]) =
      ([batchRef, fuelRef], [(0, .main [.cont .add])]) := withInputs_batch
  rw [StagedTx.build, hsigners, TransactionBody.build, hinputs]
  cases stake <;> rfl

lemma tx_stepped (params : ProtocolParameters) :
    Tx.tx .noCrypto params (some fuelRef) stepped [] [fuelRef] none = .ok batchBody := by
  have hsigners : stepped.signers = [constants.addVkey] := dedupSigners_singleton _
  have hinputs : withInputs (withFuel stepped.inputs [fuelRef]) =
      ([batchRef, fuelRef], [(0, .main [.cont .add])]) := withInputs_batch
  rw [Tx.tx, SteppedUtxos.specifiedSignatories, hsigners, TransactionBody.build, hinputs]
  rfl

lemma reads_staged {stake : Option Kernel.Referenced}
    (h : Channel.tryFrom hash (batchInput stake) = .ok (channel 1_000_000 (.opened 0 []))) :
    staged.Reads hash (batchUtxos stake) := by
  intro input channel hchannel
  rw [staged, Std.TreeMap.getElem?_insert] at hchannel
  split_ifs at hchannel with heq
  · obtain rfl := Std.LawfulEqCmp.eq_of_compare heq
    obtain rfl := Option.some.inj hchannel
    exact ⟨batchInput stake, rfl, h⟩
  · simp at hchannel

lemma tryFrom_pointer : Channel.tryFrom hash (batchInput pointer) =
    .ok (channel 1_000_000 (.opened 0 [])) := by
  rfl

lemma accepted_staged (stake : Option Kernel.Referenced) (bounds : Kernel.Bounds) :
    staged.Accepted hash (batchUtxos stake) bounds := by
  intro input will hwill output constants' stage houtput honChain
  rw [staged, Std.TreeMap.getElem?_insert] at hwill
  split_ifs at hwill with heq
  · obtain rfl := Std.LawfulEqCmp.eq_of_compare heq
    obtain rfl := Option.some.inj hwill
    obtain rfl := Option.some.inj houtput
    have hchannel : (batchInput stake).channel =
        some ⟨hash, constants.toKernel, .opened 0 []⟩ := rfl
    obtain ⟨-, rfl, rfl⟩ := Kernel.Datum.mk.inj (Option.some.inj (hchannel.symm.trans honChain))
    have hamount : (1_000_000 : UInt64) = debufferAmount 3_000_000 := by decide
    have haccepted := @accepted_add_iff .noCrypto (channel 1_000_000 (.opened 0 [])) 3_000_000
      (batchInput stake).value bounds (Kernel.Output.amountIn_value _) hamount 0 [] rfl 5_000_000
    exact haccepted.mpr (by decide)
  · simp at hwill

lemma accepted_stepped (bounds : Kernel.Bounds) : stepped.Accepted .noCrypto bounds := by
  intro x hx constants' stage honChain
  obtain rfl := List.mem_singleton.mp hx
  have hchannel : (batchInput none).channel =
      some ⟨hash, constants.toKernel, .opened 0 []⟩ := rfl
  obtain ⟨-, rfl, rfl⟩ := Kernel.Datum.mk.inj (Option.some.inj (hchannel.symm.trans honChain))
  have hamount : (1_000_000 : UInt64) = debufferAmount 3_000_000 := by decide
  have haccepted := @accepted_add_iff .noCrypto (channel 1_000_000 (.opened 0 [])) 3_000_000
    (batchInput none).value bounds (Kernel.Output.amountIn_value _) hamount 0 [] rfl 5_000_000
  exact haccepted.mpr (by decide)

lemma noPointers_staged_iff {stake : Option Kernel.Referenced} :
    staged.NoPointers (batchUtxos stake) ↔ atPointer ⟨.script hash, stake⟩ = false := by
  constructor
  · intro h
    exact h batchRef _ _ Std.TreeMap.getElem?_insert_self (batchInput stake) rfl
  · intro h input channel step hwill output houtput
    rw [staged, Std.TreeMap.getElem?_insert] at hwill
    split_ifs at hwill with heq
    · obtain rfl := Std.LawfulEqCmp.eq_of_compare heq
      obtain rfl := Option.some.inj houtput
      exact h
    · simp at hwill

lemma ownConstants_batch (stake : Option Kernel.Referenced) :
    OwnConstants (batchInput stake) constants :=
  ⟨hash, .opened 0 [], rfl⟩

lemma ownConstants_staged (stake : Option Kernel.Referenced) :
    staged.OwnConstants (batchUtxos stake) := by
  intro input channel step hwill output houtput
  rw [staged, Std.TreeMap.getElem?_insert] at hwill
  split_ifs at hwill with heq
  · obtain rfl := Std.LawfulEqCmp.eq_of_compare heq
    obtain rfl := Option.some.inj houtput
    obtain ⟨rfl, -⟩ := Will.cont.inj (Option.some.inj hwill)
    exact ownConstants_batch stake
  · simp at hwill

lemma ownConstants_stepped : stepped.OwnConstants := by
  intro x hx step vars _
  obtain rfl := List.mem_singleton.mp hx
  exact ownConstants_batch none

end Sample

/-- Both builders' transactions that add to a channel are accepted, fuel and all. -/
theorem batch_validates_of_sample :
    (Aligned .noCrypto Sample.hash (Sample.batchTx none) Sample.batchRedeemer
        (Sample.staged.verified Sample.hash (Sample.batchUtxos none)) ∧
      (Sample.batchTx none).Validates .noCrypto Sample.hash Sample.batchRedeemer) ∧
    Aligned .noCrypto Sample.hash (Sample.batchTx none) Sample.batchRedeemer
        Sample.stepped.verified ∧
      (Sample.batchTx none).Validates .noCrypto Sample.hash Sample.batchRedeemer := by
  obtain ⟨hstaged, hstepped⟩ := @batch_validates .noCrypto Sample.hash Sample.preprod
    (Sample.batchUtxos none) (some Sample.fuelRef) [Sample.fuelRef] (Sample.fuelOff_batch none) none
    _ _ _ (Sample.shown_batchBody none Sample.preprod)
  obtain ⟨haligned, hvalidates⟩ := hstaged Sample.staged _ (Sample.build_staged none Sample.preprod)
    (Sample.reads_staged rfl) (Sample.accepted_staged none _)
  have hpointers := (@Sample.noPointers_staged_iff none).mpr rfl
  have hutxos : ∀ x ∈ Sample.stepped.items,
      Sample.batchUtxos none x.utxo.outputReference = some x.utxo.output := by
    intro x hx
    obtain rfl := List.mem_singleton.mp hx
    rfl
  obtain ⟨haligned', hvalidates'⟩ := hstepped Sample.stepped [] (Sample.tx_stepped Sample.preprod)
    hutxos (Sample.accepted_stepped _)
  exact ⟨⟨haligned, hvalidates.mpr ⟨hpointers, Sample.ownConstants_staged none⟩⟩, haligned',
    hvalidates'.mpr Sample.ownConstants_stepped⟩

/-- At an address with a pointer the same step is accepted, and the transaction is not: its
output is at the address without a stake part. -/
theorem batch_not_validates :
    ¬∀ (crypto : Crypto) (hash : Kernel.ScriptHash) (params : ProtocolParameters)
      (utxos : OutputReference → Option Kernel.Output) (reference : Option OutputReference)
      (fuel : List OutputReference) (change : Option Change) (body : TransactionBody)
      (t : Kernel.Transaction) (redeemers : OutputReference → Kernel.Redeemer)
      (staged staged' : StagedTx crypto),
      FuelOff hash utxos fuel → body.Shown utxos params.slotConfig t redeemers →
      staged.build hash utxos params reference fuel change = .ok (body, staged') →
      staged.Reads hash utxos → staged.Accepted hash utxos t.validityRange →
      t.Validates crypto hash redeemers := by
  intro h
  have hbuild := Sample.build_staged Sample.pointer Sample.preprod
  have hreads := Sample.reads_staged Sample.tryFrom_pointer
  have hfuel := Sample.fuelOff_batch Sample.pointer
  have hshown := Sample.shown_batchBody Sample.pointer Sample.preprod
  have haccepted := Sample.accepted_staged Sample.pointer (Sample.batchTx none).validityRange
  have hvalidates := h .noCrypto _ _ _ _ _ _ _ _ _ _ _ hfuel hshown hbuild hreads haccepted
  have hiff := (StagedTx.validates_iff hbuild hreads hfuel hshown).2
  cases Sample.noPointers_staged_iff.mp (hiff.mp hvalidates).2.1

end Konduit.Tx2
