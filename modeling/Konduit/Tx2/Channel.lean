import Konduit.Data.Reading
import Konduit.Tx.Channel

/-!
# Resolving what is wanted of a channel

The second transaction builder.  A channel is read off an output, and what a party wants of
it in an interval of time is resolved to a step with the channel that continues, or refused.
-/

open Lib

namespace Konduit.Data

/-- The sum of two durations; the addition of the source panics when there is none. -/
def Duration.checkedAdd (a b : Duration) : Option Duration :=
  if h : a.nanos + b.nanos < 2 ^ 64 * 10 ^ 9 then some ⟨a.nanos + b.nanos, h⟩ else none

/-- The used cheque that an unlocked one becomes. -/
def Used.ofUnlocked {V : VerifyState} (unlocked : Unlocked V) : Used :=
  ⟨unlocked.index, unlocked.amount⟩

/-- The pending cheque that a locked one becomes. -/
def Pending.ofLocked {V : VerifyState} (locked : Locked V) : Pending :=
  ⟨locked.amount, locked.timeout, locked.body.lock⟩

end Konduit.Data

namespace Konduit.Tx2

open Data Tx

/-! ### Wants and wills -/

/-- The time in which a transaction is to be valid. -/
structure Interval where
  lower : Option Duration
  upper : Option Duration

/-- What is wanted of a channel. -/
inductive Want where
  | add (amount : UInt64)
  | sub (squash : Squash .unverified) (cheques : List (Unlocked .unverified))
  | close
  | respond (squash : Squash .unverified) (cheques : List (Cheque .unverified))
  | end
  | elapse
  | unlock (secrets : List Secret)
  | expire

/-- A step with a continuing output. -/
inductive WillCont where
  | add (amount : UInt64)
  | sub (squash : Squash .unverified) (unlockeds : List (Unlocked .unverified)) (gain : UInt64)
  | close
  | respond (squash : Squash .unverified) (cheques : List (Cheque .unverified)) (gain : UInt64)
  | unlock (unpends : List Unpend) (gain : UInt64)
  | expire (unpends : List Unpend)

/-- A step that a channel ends with. -/
inductive WillEol where
  | end
  | elapse (lower : Duration)

/-- Why what is wanted does not resolve. -/
inductive StepError where
  | pair (stage step : String)
  | noStep
  | bound (reason : String)
  /-- No error of the source: two durations do not add up, and the thread panics. -/
  | overflow
deriving DecidableEq

/-- The step that is shown to the kernel. -/
def WillCont.toStep : WillCont → Cont
  | add _ => .add
  | sub squash unlockeds _ => .sub squash unlockeds
  | close => .close
  | respond squash cheques _ => .respond squash cheques
  | unlock unpends _ => .unlock unpends
  | expire unpends => .expire unpends

/-- The adaptor signs the step. -/
def WillCont.isAdaptor : WillCont → Bool
  | sub _ _ _ | respond _ _ _ | unlock _ _ => true
  | add _ | close | expire _ => false

/-- The step that is shown to the kernel. -/
def WillEol.toStep : WillEol → Kernel.Eol
  | «end» => .end
  | elapse _ => .elapse

/-! ### Channels -/

/-- A channel: where its output delegates, its constants, its amount and its stage. -/
structure Channel where
  delegation : Option Kernel.Credential
  constants : Constants
  amount : UInt64
  stage : Stage
deriving DecidableEq

/-- What a want is resolved to. -/
inductive Will where
  | cont (output : Channel) (step : WillCont)
  | eol (step : WillEol)

namespace Will

/-- The adaptor signs for what is to be done. -/
def isAdaptor : Will → Bool
  | cont _ step => step.isAdaptor
  | eol _ => false

/-- The key that must sign. -/
def signer (self : Will) (constants : Constants) : VerifyingKey :=
  if self.isAdaptor then constants.subVkey else constants.addVkey

end Will

/-- Why an output is not read as a channel. -/
inductive FromOutputError where
  | scriptCredential
  | konduitCredential
  | datum
  | inline
  | parseDatum
  | ownHash

/-- The part of an address that names a delegate; a pointer is not read. -/
def delegationOf (address : Kernel.Address) : Option Kernel.Credential :=
  match address.stakeCredential with
  | some (.inline credential) => some credential
  | _ => none

/-- The address of the script, with the stake part of a delegate. -/
def konduitAddress (hash : Kernel.ScriptHash) (delegation : Option Kernel.Credential) :
    Kernel.Address :=
  ⟨.script hash, delegation.map .inline⟩

/-! ### Evidence that is used -/

section Prep

variable {V : VerifyState}

/-- The cheques that are in time and were not used. -/
def activeUnlockeds (cheques : List (Unlocked V)) (useds : List Used) (upper : Duration) :
    List (Unlocked V) :=
  cheques.filter fun c => c.timeout > upper && !useds.any fun x => x.index = c.index

/-- The cheques that are in time and were not used. -/
def activeCheques (cheques : List (Cheque V)) (useds : List Used) (upper : Duration) :
    List (Cheque V) :=
  cheques.filter fun c => c.timeout > upper && !useds.any fun x => x.index = c.index

/-- The useds that the squash does not stand for. -/
def owedUseds (useds : List Used) (squash : Squash V) : List Used :=
  useds.filter fun u => !squash.isIndexSquashed u.index

/-- The active cheques, and the useds after the sub. -/
def prepSub (squash : Squash V) (cheques : List (Unlocked V)) (useds : List Used)
    (upper : Duration) : List (Unlocked V) × List Used :=
  let unlockeds := activeUnlockeds cheques useds upper
  let nextUseds := owedUseds useds squash ++ unlockeds.map Used.ofUnlocked
  (unlockeds, nextUseds.mergeSort fun a b => a.index ≤ b.index)

/-- The active cheques, the pendings after the respond, and what is claimed beyond the squash. -/
def prepRespond (squash : Squash V) (cheques : List (Cheque V)) (useds : List Used)
    (upper : Duration) : List (Cheque V) × List Pending × UInt64 :=
  let outCheques := activeCheques cheques useds upper
  let pendings := (outCheques.filterMap Cheque.asLocked).map Pending.ofLocked
  let unlockedAmount := Word.sum ((outCheques.filterMap Cheque.asUnlocked).map ChequeSigned.amount)
  let totalAmount := Word.sum ((owedUseds useds squash).map Used.amount) + unlockedAmount
  (outCheques, pendings, totalAmount)

end Prep

namespace Channel

/-- Read a channel off an output. -/
def tryFrom (hash : Kernel.ScriptHash) (output : Kernel.Output) :
    Except FromOutputError Channel :=
  match output.address.paymentCredential with
  | .verificationKey _ => .error .scriptCredential
  | .script hash' =>
    if hash' ≠ hash then .error .konduitCredential
    else
      match output.datum with
      | .noDatum => .error .datum
      | .datumHash _ => .error .inline
      | .inlineDatum data =>
        match Datum.ofData data with
        | none => .error .parseDatum
        | some ⟨ownHash, constants, stage⟩ =>
          if ownHash ≠ hash then .error .ownHash
          else .ok ⟨delegationOf output.address, constants, debufferAmount output.lovelace, stage⟩

/-- The channel that continues: only the amount and the stage change. -/
def stepped (self : Channel) (amount : UInt64) (stage : Stage) : Channel :=
  { self with amount, stage }

/-- The lovelace of the output. -/
def bufferedAmount (self : Channel) : UInt64 := self.amount + minAdaBuffer

/-- The value of the output. -/
def bufferedValue (self : Channel) : Kernel.Value := Kernel.ada self.bufferedAmount.toNat

/-- The time from which a closed channel elapses. -/
def elapseAt (self : Channel) : Option Duration :=
  match self.stage with
  | .closed _ _ elapseAt => some elapseAt
  | _ => none

/-- The datum of the output is the channel's own. -/
abbrev Own (self : Channel) (output : Kernel.Output) : Prop :=
  OwnDatum output self.constants self.stage

/-- What a channel that was read says about the output. -/
structure Reads (channel : Channel) (hash : Kernel.ScriptHash) (output : Kernel.Output)
    (constants : Kernel.Constants) (stage : Kernel.Stage) : Prop where
  address : output.address.paymentCredential = .script hash
  delegation : channel.delegation = delegationOf output.address
  onChain : output.channel = some ⟨hash, constants, stage⟩
  constants : channel.constants.toKernel = constants.asRead
  canonical_closePeriod : channel.constants.closePeriod.Canonical
  stage : channel.stage.toKernel = stage.asRead
  canonical_stage : channel.stage.Canonical
  amount : channel.amount = debufferAmount output.lovelace

lemma reads_of_tryFrom {self : Channel} {hash : Kernel.ScriptHash} {output : Kernel.Output}
    (h : tryFrom hash output = .ok self) :
    ∃ constants stage, self.Reads hash output constants stage := by
  rw [tryFrom] at h
  split at h
  · cases h
  · rename_i hash' haddress
    split_ifs at h with hhash
    obtain rfl := not_not.mp hhash
    split at h
    · cases h
    · cases h
    · rename_i data hdata
      split at h
      · cases h
      · rename_i ownHash constants stage hdatum
        split_ifs at h with hown
        obtain rfl := not_not.mp hown
        obtain rfl := Except.ok.inj h
        obtain ⟨constants', stage', honChain, hconstants, hperiod, hstage, hcanonical⟩ :=
          Datum.toKernel_of_ofData hdatum
        refine ⟨constants', stage', haddress, rfl, ?_, hconstants, hperiod, hstage, hcanonical,
          rfl⟩
        rw [Kernel.Output.channel, hdata]
        exact honChain

section Reads

variable {self : Channel} {hash ownHash : Kernel.ScriptHash} {output : Kernel.Output}
  {constants : Kernel.Constants} {stage : Kernel.Stage}

/-- The kernel finds a channel in the output as well. -/
lemma reads_of_onChain (h : tryFrom hash output = .ok self)
    (honChain : output.channel = some ⟨ownHash, constants, stage⟩) :
    self.Reads hash output constants stage := by
  obtain ⟨constants', stage', hreads⟩ := reads_of_tryFrom h
  have heq := hreads.onChain.symm.trans honChain
  simp only [Option.some.injEq, Kernel.Datum.mk.injEq] at heq
  obtain ⟨-, rfl, rfl⟩ := heq
  exact hreads

/-- A datum is the channel's own just when nothing in it is taken for something else. -/
lemma Reads.own_iff (h : self.Reads hash output constants stage) :
    self.Own output ↔ constants.asRead = constants ∧ stage.asRead = stage := by
  rw [← h.constants, ← h.stage]
  constructor
  · intro hown
    obtain ⟨rfl, rfl⟩ := hown.eq h.onChain
    exact ⟨rfl, rfl⟩
  · rintro ⟨hconstants, hstage⟩
    exact ⟨hash, by rw [h.onChain, hconstants, hstage]⟩

lemma Reads.constants_toKernel (h : self.Reads hash output constants stage)
    (hown : self.Own output) : self.constants.toKernel = constants :=
  (hown.eq h.onChain).1.symm

lemma Reads.stage_toKernel (h : self.Reads hash output constants stage) (hown : self.Own output) :
    self.stage.toKernel = stage :=
  (hown.eq h.onChain).2.symm

end Reads

/-! ### Resolving -/

/-- Put an amount into an opened channel. -/
def wantAdd (self : Channel) (amount : UInt64) : Except StepError Will :=
  match self.stage with
  | .opened _ _ =>
    if amount = 0 then .error .noStep
    else .ok (.cont (self.stepped (self.amount + amount) self.stage) (.add amount))
  | stage => .error (.pair (label stage) "Add")

/-- Take out of an opened channel what the evidence gains. -/
def wantSub (self : Channel) (squash : Squash .unverified) (cheques : List (Unlocked .unverified))
    (interval : Interval) : Except StepError Will :=
  match self.stage with
  | .opened subbed useds =>
    match interval.upper with
    | none => .error (.bound "sub requires an interval upper bound")
    | some upper =>
      let (unlockeds, useds) := prepSub squash cheques useds upper
      let absoluteOwed := squash.amount + Word.sum (useds.map Used.amount)
      let relativeOwed := Word.satSub absoluteOwed subbed
      let gain := min relativeOwed self.amount
      if gain = 0 then .error .noStep
      else
        .ok (.cont (self.stepped (self.amount - gain) (.opened (subbed + gain) useds))
          (.sub squash unlockeds gain))
  | stage => .error (.pair (label stage) "Sub")

/-- Close an opened channel. -/
def wantClose (self : Channel) (interval : Interval) : Except StepError Will :=
  match self.stage with
  | .opened subbed useds =>
    match interval.upper with
    | none => .error (.bound "close requires an interval upper bound")
    | some upper =>
      match upper.checkedAdd self.constants.closePeriod with
      | none => .error .overflow
      | some elapseAt =>
        .ok (.cont (self.stepped self.amount (.closed subbed useds elapseAt)) .close)
  | stage => .error (.pair (label stage) "Close")

/-- Respond to a close with the evidence. -/
def wantRespond (self : Channel) (squash : Squash .unverified)
    (cheques : List (Cheque .unverified)) (interval : Interval) : Except StepError Will :=
  match self.stage with
  | .closed subbed useds elapseAt =>
    match interval.upper with
    | none => .error (.bound "respond requires an interval upper bound")
    | some upper =>
      if upper ≥ elapseAt then
        .error (.bound "respond interval not strictly before elapse_at")
      else
        let (outCheques, pendings, usedsAmount) := prepRespond squash cheques useds upper
        let absoluteOwed := squash.amount + usedsAmount
        let relativeOwed := Word.satSub absoluteOwed subbed
        let gain := min relativeOwed self.amount
        let pendingsAmount := Word.sum (pendings.map Pending.amount)
        .ok (.cont (self.stepped (self.amount - gain) (.responded pendingsAmount pendings))
          (.respond squash outCheques gain))
  | stage => .error (.pair (label stage) "Respond")

/-- Take all of a closed channel whose time has come. -/
def wantElapse (self : Channel) (interval : Interval) : Except StepError Will :=
  match self.elapseAt with
  | none => .error (.pair (label self.stage) "Elapse")
  | some elapseAt =>
    match interval.lower with
    | none => .error (.bound "elapse requires an interval lower bound")
    | some lower =>
      if lower ≤ elapseAt then .error (.bound "elapse lower not strictly after elapse_at")
      else .ok (.eol (.elapse lower))

/-- Take the rest of a responded channel whose pendings have timed out. -/
def wantEnd (self : Channel) (interval : Interval) : Except StepError Will :=
  match self.stage with
  | .responded _ pendings =>
    if pendings.isEmpty then .ok (.eol .end)
    else
      match interval.lower with
      | none => .error (.bound "end with pending secrets requires an interval lower bound")
      | some lower =>
        if pendings.any fun pending => pending.timeout ≥ lower then
          .error (.bound "pending not yet timed out for interval lower")
        else .ok (.eol .end)
  | stage => .error (.pair (label stage) "End")

/-- What is done with a pending: an unlock, if its secret is known and its timeout lies
before the upper bound. -/
def unlockUnpend (crypto : Crypto) (secrets : List Secret) (upper : Duration) (p : Pending) :
    Unpend :=
  if p.timeout ≥ upper then .continue
  else
    match Tx.Channel.lookup crypto secrets p.lock with
    | some secret => .unlock secret.bytes
    | none => .continue

/-- The pendings that a list of unpends continues. -/
def remaining (pendings : List Pending) (unpends : List Unpend) : List Pending :=
  ((pendings.zip unpends).filter fun x => x.2.isContinue).map Prod.fst

/-- Take the pendings whose secrets are known. -/
def wantUnlock (self : Channel) (crypto : Crypto) (secrets : List Secret) (interval : Interval) :
    Except StepError Will :=
  match self.stage with
  | .responded _ pendings =>
    match interval.upper with
    | none => .error (.bound "unlock requires an interval upper bound")
    | some upper =>
      let unpends := pendings.map (unlockUnpend crypto secrets upper)
      let gain := Word.sum
        (((pendings.zip unpends).filter fun x => !x.2.isContinue).map fun x => x.1.amount)
      let remaining := remaining pendings unpends
      let pendingsAmount := Word.sum (remaining.map Pending.amount)
      .ok (.cont (self.stepped (Word.satSub self.amount gain) (.responded pendingsAmount remaining))
        (.unlock unpends gain))
  | stage => .error (.pair (label stage) "Unlock")

/-- What is done with a pending: it expires when its timeout lies before the lower bound. -/
def expireUnpend (lower : Duration) (p : Pending) : Unpend :=
  if p.timeout < lower then .expire else .continue

/-- Take the pendings that have timed out. -/
def wantExpire (self : Channel) (interval : Interval) : Except StepError Will :=
  match self.stage with
  | .responded _ pendings =>
    match interval.lower with
    | none => .error (.bound "expire requires an interval lower bound")
    | some lower =>
      let unpends := pendings.map (expireUnpend lower)
      if unpends.all Unpend.isContinue then .error .noStep
      else
        let remaining := remaining pendings unpends
        let pendingsAmount := Word.sum (remaining.map Pending.amount)
        .ok (.cont (self.stepped pendingsAmount (.responded pendingsAmount remaining))
          (.expire unpends))
  | stage => .error (.pair (label stage) "Expire")

/-- The single entry point. -/
def resolve (self : Channel) (crypto : Crypto) (want : Want) (interval : Interval) :
    Except StepError Will :=
  match want with
  | .add amount => self.wantAdd amount
  | .sub squash cheques => self.wantSub squash cheques interval
  | .close => self.wantClose interval
  | .respond squash cheques => self.wantRespond squash cheques interval
  | .end => self.wantEnd interval
  | .elapse => self.wantElapse interval
  | .unlock secrets => self.wantUnlock crypto secrets interval
  | .expire => self.wantExpire interval

end Channel

/-! ### On chain -/

lemma usedsAmount_toKernel (l : List Used) :
    Kernel.usedsAmount (l.map Used.toKernel) = ((l.map fun u => u.amount.toNat).sum : ℕ) := by
  induction l with
  | nil => rfl
  | cons u l ih =>
    rw [List.map_cons, Kernel.usedsAmount_cons, ih, List.map_cons, List.sum_cons, Nat.cast_add]
    rfl

lemma pendsAmount_toKernel (l : List Pending) :
    Kernel.pendsAmount (l.map Pending.toKernel) = ((l.map fun p => p.amount.toNat).sum : ℕ) := by
  induction l with
  | nil => rfl
  | cons p l ih =>
    rw [List.map_cons, Kernel.pendsAmount_cons, ih, List.map_cons, List.sum_cons, Nat.cast_add]
    rfl

/-- What the kernel makes of a will: the input as it stands, the continuing output as it is
built. -/
def Will.run (self : Will) (crypto : Crypto) (bounds : Kernel.Bounds)
    (constants : Kernel.Constants) (valueIn : Kernel.Value) (stageIn : Kernel.Stage) :
    Option Kernel.VerificationKey :=
  match self with
  | .cont output step =>
    Kernel.cont crypto bounds constants valueIn stageIn output.bufferedValue output.stage.toKernel
      step.toStep.toKernel
  | .eol step => Kernel.eol bounds constants stageIn step.toStep

/-! ### A channel between two keys of zero bytes -/

namespace Sample

/-- A script hash of zero bytes. -/
def hash : Kernel.ScriptHash := List.replicate 28 0

/-- Constants with keys of zero bytes, and a close period of a day. -/
def constants : Constants := ⟨⟨[]⟩, ⟨BytesN.fill 32 0⟩, ⟨BytesN.fill 32 0⟩, .fromMillis 86_400_000⟩

/-- An output of the script with this stage in its datum. -/
def output (lovelace : UInt64) (stage : Plutus.Data) : Kernel.Output :=
  ⟨konduitAddress hash none, lovelace, [], .inlineDatum (.list [.bytes hash,
    .list [.bytes [], .bytes (List.replicate 32 0), .bytes (List.replicate 32 0), .int 86_400_000],
    stage]), none⟩

/-- The channel without a delegate. -/
def channel (amount : UInt64) (stage : Stage) : Channel := ⟨none, constants, amount, stage⟩

end Sample

end Konduit.Tx2
