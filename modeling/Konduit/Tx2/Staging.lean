import Konduit.Lib.Register
import Konduit.Tx2.Funding

/-!
# What is staged in the end

A caller wants this and that of the channels, drops it, wants something else, and builds when it is
done; what fails changes nothing.  In the end a channel has the will that its last want was resolved
to, unless this was dropped or built since (`last_write_wins`).
-/

open Lib

namespace Konduit.Tx2

open Data Tx Cardano Cardano.Value
open Kernel (OutputReference)

/-- What a stage is built with. -/
structure BuildArgs where
  hash : Kernel.ScriptHash
  utxos : OutputReference → Option Kernel.Output
  params : ProtocolParameters
  reference : Option OutputReference
  fuel : OrdMap OutputReference (Value UInt64)
  /-- The change for what is selected of the fuel, unless the transaction does not balance. -/
  change : List OutputReference → Option (Option Change)

namespace StagedTx

variable {crypto : Crypto}

/-! ### The operations -/

/-- Take back all that was wanted. -/
def dropAllIntents (self : StagedTx crypto) : StagedTx crypto :=
  { self with
    wills := ∅
    resolved := fun _ _ (h : none = some _) => (Option.some_ne_none _ h.symm).elim }

/-- Open only those of the channels. -/
def retain (self : StagedTx crypto) (pred : Channel → Bool) : StagedTx crypto :=
  { self with opens := self.opens.filter pred }

/-- Open none of the channels. -/
def dropAllOpens (self : StagedTx crypto) : StagedTx crypto := { self with opens := [] }

/-- Build with what is selected of the fuel. -/
def buildFrom (self : StagedTx crypto) (args : BuildArgs) :
    Except FundError (TransactionBody × StagedTx crypto) := do
  let fuel ← self.fuelInputs args.hash args.utxos args.reference args.fuel
  match args.change fuel with
  | none => .error .balancing
  | some change =>
    (self.build args.hash args.utxos args.params args.reference fuel change).mapError .build

/-- What is done to a stage. -/
inductive Op where
  | want (input : OutputReference) (want : Want)
  | dropIntent (input : OutputReference)
  | dropAllIntents
  | addOpen (channel : Channel)
  | retain (pred : Channel → Bool)
  | dropAllOpens
  | build (args : BuildArgs)

/-- The stage afterwards; what fails leaves it as it is. -/
def apply (self : StagedTx crypto) : Op → StagedTx crypto
  | .want input want => (self.want input want).toOption.getD self
  | .dropIntent input => self.dropIntent input
  | .dropAllIntents => self.dropAllIntents
  | .addOpen channel => self.addOpen channel
  | .retain pred => self.retain pred
  | .dropAllOpens => self.dropAllOpens
  | .build args => ((self.buildFrom args).toOption.map Prod.snd).getD self

/-! ### What an operation writes -/

/-- The will that a want is resolved to, if any. -/
def resolved? (self : StagedTx crypto) (input : OutputReference) (want : Want) : Option Will :=
  self.channels[input]?.bind fun channel => (channel.resolve crypto want self.interval).toOption

/-- The will of a channel that an operation sets, or takes away. -/
def writesWill (input : OutputReference) (self : StagedTx crypto) : Op → Option (Option Will)
  | .want input' want =>
    if input' = input then (self.resolved? input want).map some else none
  | .dropIntent input' => if input' = input then some none else none
  | .dropAllIntents => some none
  | .build args => if (self.buildFrom args).isOk then some none else none
  | .addOpen _ | .retain _ | .dropAllOpens => none

/-- Whether a channel is to be opened, where an operation decides it. -/
def writesOpen (channel : Channel) (self : StagedTx crypto) : Op → Option Bool
  | .addOpen channel' => if channel' = channel then some true else none
  | .retain pred => if pred channel then none else some false
  | .dropAllOpens => some false
  | .build args => if (self.buildFrom args).isOk then some false else none
  | .want _ _ | .dropIntent _ | .dropAllIntents => none

section Writes

variable (self : StagedTx crypto)

/-- What is built leaves the stage cleared. -/
lemma apply_build (args : BuildArgs) :
    self.apply (.build args) = if (self.buildFrom args).isOk then self.cleared else self := by
  rw [apply]
  cases hbuild : self.buildFrom args with
  | error e => rfl
  | ok built =>
    obtain ⟨body, self'⟩ := built
    rw [buildFrom, Result.bind_eq_ok] at hbuild
    obtain ⟨fuel, -, hbuild⟩ := hbuild
    split at hbuild
    · cases hbuild
    · rw [Result.mapError_eq_ok, build] at hbuild
      split_ifs at hbuild
      obtain ⟨-, rfl⟩ := Prod.mk.inj (Except.ok.inj hbuild)
      rfl

lemma resolved?_eq_some_iff {input : OutputReference} {want : Want} {will : Will} :
    self.resolved? input want = some will ↔
      ∃ channel, self.channels[input]? = some channel ∧
        channel.resolve crypto want self.interval = .ok will := by
  simp only [resolved?, Option.bind_eq_some_iff, Result.toOption_eq_some]

/-- A want that is resolved sets the will of its channel, and nothing else. -/
lemma apply_want (input : OutputReference) (want : Want) :
    (self.apply (.want input want)).interval = self.interval ∧
      (self.apply (.want input want)).channels = self.channels ∧
      (self.apply (.want input want)).opens = self.opens ∧
      (self.apply (.want input want)).wills =
        (self.resolved? input want).elim self.wills (self.wills.insert input) := by
  cases hwant : self.want input want with
  | error e =>
    have happly : self.apply (.want input want) = self := by
      rw [apply, hwant]
      rfl
    have hnone : self.resolved? input want = none := by
      rw [resolved?]
      rw [StagedTx.want] at hwant
      split at hwant
      · rename_i hchannel
        rw [hchannel, Option.bind_none]
      · rename_i channel hchannel
        split at hwant
        · rename_i e hresolve
          rw [hchannel, Option.bind_some, hresolve]
          rfl
        · cases hwant
    rw [happly, hnone]
    exact ⟨rfl, rfl, rfl, rfl⟩
  | ok self' =>
    have happly : self.apply (.want input want) = self' := by
      rw [apply, hwant]
      rfl
    rw [happly]
    rw [StagedTx.want] at hwant
    split at hwant
    · cases hwant
    · rename_i channel hchannel
      split at hwant
      · cases hwant
      · rename_i will hresolve
        have hsome := (self.resolved?_eq_some_iff).mpr ⟨channel, hchannel, hresolve⟩
        obtain rfl := Except.ok.inj hwant
        rw [hsome]
        exact ⟨rfl, rfl, rfl, rfl⟩

/-- The times and the channels stay as they are. -/
lemma apply_read (op : Op) :
    (self.apply op).interval = self.interval ∧ (self.apply op).channels = self.channels := by
  cases op with
  | want input want =>
    obtain ⟨hinterval, hchannels, -⟩ := self.apply_want input want
    exact ⟨hinterval, hchannels⟩
  | build args =>
    rw [apply_build]
    split_ifs <;> exact ⟨rfl, rfl⟩
  | _ => exact ⟨rfl, rfl⟩

/-- The will of a channel after an operation. -/
lemma apply_will (input : OutputReference) (op : Op) :
    (self.apply op).wills[input]? = (writesWill input self op).getD self.wills[input]? := by
  cases op with
  | want input' want =>
    obtain ⟨-, -, -, hwills⟩ := self.apply_want input' want
    rw [hwills, writesWill]
    by_cases heq : input' = input
    · subst heq
      rw [if_pos rfl]
      cases self.resolved? input' want <;> simp
    · rw [if_neg heq, Option.getD_none]
      cases self.resolved? input' want with
      | none => rfl
      | some will =>
        rw [Option.elim_some, Std.TreeMap.getElem?_insert, if_neg]
        simpa using heq
  | dropIntent input' =>
    rw [apply, dropIntent, writesWill, Std.TreeMap.getElem?_erase]
    by_cases heq : input' = input <;> simp [heq]
  | dropAllIntents => simp [apply, dropAllIntents, writesWill]
  | build args =>
    rw [apply_build, writesWill]
    split_ifs <;> simp [cleared]
  | _ => rfl

/-- Whether a channel is to be opened after an operation. -/
lemma apply_open (channel : Channel) (op : Op) :
    decide (channel ∈ (self.apply op).opens) =
      (writesOpen channel self op).getD (decide (channel ∈ self.opens)) := by
  cases op with
  | want input want =>
    obtain ⟨-, -, hopens, -⟩ := self.apply_want input want
    rw [hopens]
    rfl
  | addOpen channel' =>
    rw [apply, addOpen, writesOpen]
    by_cases heq : channel' = channel
    · subst heq
      by_cases hmem : channel' ∈ self.opens <;> simp [hmem]
    · by_cases hmem : channel' ∈ self.opens <;> simp [hmem, heq, Ne.symm heq]
  | retain pred =>
    rw [apply, retain, writesOpen]
    by_cases hpred : pred channel = true <;> simp [hpred]
  | dropAllOpens => simp [apply, dropAllOpens, writesOpen]
  | build args =>
    rw [apply_build, writesOpen]
    split_ifs <;> simp [cleared]
  | _ => rfl

/-- No channel is opened twice. -/
lemma nodup_opens_apply (h : self.opens.Nodup) (op : Op) : (self.apply op).opens.Nodup := by
  cases op with
  | want input want =>
    obtain ⟨-, -, hopens, -⟩ := self.apply_want input want
    rwa [hopens]
  | addOpen channel =>
    rw [apply, addOpen]
    by_cases hmem : channel ∈ self.opens
    · simpa [hmem] using h
    · simp only [if_neg hmem]
      rw [← List.concat_eq_append]
      exact h.concat hmem
  | retain pred => exact h.filter pred
  | dropAllOpens => exact List.nodup_nil
  | build args =>
    rw [apply_build]
    split_ifs
    · exact List.nodup_nil
    · exact h
  | _ => exact h

end Writes

/-! ### What is staged in the end -/

/-- The will of a channel. -/
def willAt (input : OutputReference) : Register (@apply crypto) (Option Will) where
  get self := self.wills[input]?
  write := writesWill input
  get_step self op := self.apply_will input op

/-- Whether a channel is to be opened. -/
def opensAt (channel : Channel) : Register (@apply crypto) Bool where
  get self := decide (channel ∈ self.opens)
  write := writesOpen channel
  get_step self op := self.apply_open channel op

section Runs

variable (interval : Interval) (channels : InputMap Channel) (ops : List Op)

/-- The stage after these operations. -/
def after (crypto : Crypto) : StagedTx crypto :=
  ops.foldl apply (new crypto interval channels)

lemma after_read : (after interval channels ops crypto).interval = interval ∧
    (after interval channels ops crypto).channels = channels := by
  rw [after]
  induction ops using List.reverseRecOn with
  | nil => exact ⟨rfl, rfl⟩
  | append_singleton ops op ih =>
    rw [List.foldl_concat]
    obtain ⟨hinterval, hchannels⟩ := (ops.foldl apply (new crypto interval channels)).apply_read op
    exact ⟨hinterval.trans ih.1, hchannels.trans ih.2⟩

lemma nodup_opens_after : (after interval channels ops crypto).opens.Nodup := by
  rw [after]
  induction ops using List.reverseRecOn with
  | nil => exact List.nodup_nil
  | append_singleton ops op ih =>
    rw [List.foldl_concat]
    exact nodup_opens_apply _ ih op

/-- Only a want that is resolved sets a will. -/
lemma writesWill_eq_some_iff {self : StagedTx crypto} {input : OutputReference} {op : Op}
    {will : Will} :
    writesWill input self op = some (some will) ↔
      ∃ want channel, op = .want input want ∧ self.channels[input]? = some channel ∧
        channel.resolve crypto want self.interval = .ok will := by
  cases op with
  | want input' want =>
    rw [writesWill]
    split_ifs with heq
    · subst heq
      simp [resolved?_eq_some_iff]
    · simp [heq]
  | dropIntent input' => simp [writesWill]
  | build args => simp [writesWill]
  | _ => simp [writesWill]

/-- Only what is added is opened. -/
lemma writesOpen_eq_some_true_iff {self : StagedTx crypto} {channel : Channel} {op : Op} :
    writesOpen channel self op = some true ↔ op = .addOpen channel := by
  cases op <;> simp [writesOpen]

/-- A channel has the will that its last want was resolved to, unless it was dropped or built since;
a channel is opened once, where it was added and not taken away or built since. -/
structure Staged (crypto : Crypto) : Prop where
  interval_eq : (after interval channels ops crypto).interval = interval
  channels_eq : (after interval channels ops crypto).channels = channels
  wills_iff : ∀ (input : OutputReference) (will : Will),
    (after interval channels ops crypto).wills[input]? = some will ↔
      ∃ before want rest channel, ops = before ++ .want input want :: rest ∧
        channels[input]? = some channel ∧ channel.resolve crypto want interval = .ok will ∧
          (willAt input).Untouched
            ((after interval channels before crypto).apply (.want input want)) rest
  opens_iff : ∀ channel, channel ∈ (after interval channels ops crypto).opens ↔
    ∃ before rest, ops = before ++ .addOpen channel :: rest ∧
      (opensAt channel).Untouched
        ((after interval channels before crypto).apply (.addOpen channel)) rest
  nodup : (after interval channels ops crypto).opens.Nodup

/-- **Last write wins.**  Whatever a caller does to a stage, in whatever order, and however much of
it fails. -/
theorem last_write_wins (crypto : Crypto) : Staged interval channels ops crypto := by
  obtain ⟨hinterval, hchannels⟩ := @after_read crypto interval channels ops
  refine ⟨hinterval, hchannels, fun input will => ?_, fun channel => ?_,
    nodup_opens_after interval channels ops⟩
  · -- the will of a channel is what was written last, as there is none at first
    have hget : (after interval channels ops crypto).wills[input]? = some will ↔
        (willAt input).WrittenLast (new crypto interval channels) ops (some will) := by
      refine Iff.trans (@Register.get_foldl_iff _ _ _ _ (willAt input) _ ops _)
        (or_iff_left fun h => ?_)
      have hnone : (willAt input).get (new crypto interval channels) = none := by simp [willAt, new]
      exact Option.some_ne_none _ (h.2.symm.trans hnone)
    rw [hget]
    constructor
    · rintro ⟨before, op, rest, rfl, hwrite, hrest⟩
      obtain ⟨want, channel, rfl, hchannel, hresolve⟩ := writesWill_eq_some_iff.mp hwrite
      obtain ⟨hbefore, hbefore'⟩ := @after_read crypto interval channels before
      rw [← after, hbefore'] at hchannel
      rw [← after, hbefore] at hresolve
      exact ⟨before, want, rest, channel, rfl, hchannel, hresolve, hrest⟩
    · rintro ⟨before, want, rest, channel, rfl, hchannel, hresolve, hrest⟩
      obtain ⟨hbefore, hbefore'⟩ := @after_read crypto interval channels before
      rw [← hbefore'] at hchannel
      rw [← hbefore] at hresolve
      exact ⟨before, _, rest, rfl,
        writesWill_eq_some_iff.mpr ⟨want, channel, rfl, hchannel, hresolve⟩, hrest⟩
  · have hget : channel ∈ (after interval channels ops crypto).opens ↔
        (opensAt channel).WrittenLast (new crypto interval channels) ops true := by
      refine decide_eq_true_iff.symm.trans ?_
      refine Iff.trans (@Register.get_foldl_iff _ _ _ _ (opensAt channel) _ ops _)
        (or_iff_left fun h => ?_)
      exact Bool.false_ne_true (h.2.symm.trans (by simp [opensAt, new])).symm
    rw [hget]
    constructor
    · rintro ⟨before, op, rest, rfl, hwrite, hrest⟩
      obtain rfl := writesOpen_eq_some_true_iff.mp hwrite
      exact ⟨before, rest, rfl, hrest⟩
    · rintro ⟨before, rest, rfl, hrest⟩
      have hwrite : writesOpen channel (after interval channels before crypto)
          (.addOpen channel) = some true := writesOpen_eq_some_true_iff.mpr rfl
      exact ⟨before, _, rest, rfl, hwrite, hrest⟩

end Runs

end StagedTx

end Konduit.Tx2
