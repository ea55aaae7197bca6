import Konduit.Tx.Agree
import Konduit.Tx.ChannelUtxos

/-!
# The consumer's transaction

Of the channels of a ledger the consumer steps those that name its key: an opened one as it intends
to, a closed one when it has elapsed, a responded one by what is pending.  All steps go into one
transaction, with the channels that it opens.  The kernel accepts it just when each step holds
(`consumer_settles`).
-/

open Lib

namespace Konduit.Data.Tag

instance instOrd : Ord Tag := ⟨compareOn bytes⟩

instance instTransOrd : Std.TransOrd Tag := inferInstanceAs (Std.TransCmp (compareOn bytes))

instance instLawfulEqOrd : Std.LawfulEqOrd Tag where
  eq_of_compare {a b} h := by
    obtain ⟨a⟩ := a
    obtain ⟨b⟩ := b
    exact congrArg Tag.mk (@Std.LawfulEqCmp.eq_of_compare _ compare _ _ _ h)

end Konduit.Data.Tag

namespace Konduit.Tx

open Data Cardano

/-! ### Steps of a channel that was found -/

section Keeps

variable {self : Channel} {stepped : Stepped}

lemma Channel.add_keeps {amount : UInt64} (h : self.add amount = .ok stepped) :
    stepped.channel = self ∧ stepped.bounds = ⟨none, none⟩ := by
  obtain ⟨vars, -, h⟩ := Result.bind_eq_ok.mp h
  obtain rfl := Result.pure_eq_ok.mp h
  exact ⟨rfl, rfl⟩

lemma Channel.close_keeps {upper : Duration} (h : self.close upper = some (.ok stepped)) :
    stepped.channel = self ∧ stepped.bounds = .ofUpper upper := by
  obtain ⟨vars, -, h⟩ := Option.bind_eq_some_iff.mp h
  cases vars with
  | error e => cases h
  | ok vars =>
    obtain rfl := Except.ok.inj (Option.some.inj h)
    exact ⟨rfl, rfl⟩

lemma Channel.elapse_keeps {lower : Duration} (h : self.elapse lower = .ok stepped) :
    stepped.channel = self ∧ stepped.bounds = .ofLower lower := by
  obtain ⟨vars, -, h⟩ := Result.bind_eq_ok.mp h
  obtain rfl := Result.pure_eq_ok.mp h
  exact ⟨rfl, rfl⟩

lemma Channel.end_keeps {lower : Option Duration} (h : self.end lower = .ok stepped) :
    stepped.channel = self ∧ stepped.bounds.Within ⟨lower, none⟩ := by
  cases hstage : self.stage with
  | opened subbed useds => simp [Channel.end, hstage] at h
  | closed subbed useds elapseAt => simp [Channel.end, hstage] at h
  | responded total pendings =>
    simp only [Channel.end, hstage] at h
    split_ifs at h
    · obtain rfl := Except.ok.inj h
      exact ⟨rfl, .none _⟩
    · -- the lower bound is looked at only where something is pending
      cases lower with
      | none => cases h
      | some lower =>
        cases hfind : pendings.find? fun pending => pending.timeout ≥ lower with
        | some pending => simp [hfind] at h
        | none =>
          simp only [hfind] at h
          obtain rfl := Except.ok.inj h
          exact ⟨rfl, .refl _⟩

lemma Channel.expire_keeps {lower : Duration} (h : self.expire lower = .ok stepped) :
    stepped.channel = self ∧ stepped.bounds = .ofLower lower := by
  rw [Channel.expire] at h
  split at h
  · dsimp only at h
    split_ifs at h
    obtain ⟨vars, -, h⟩ := Result.bind_eq_ok.mp h
    obtain rfl := Result.pure_eq_ok.mp h
    exact ⟨rfl, rfl⟩
  · cases h

end Keeps

namespace ChannelUtxo

variable {hash : Kernel.ScriptHash} (self : ChannelUtxo hash)

/-- An add to a channel that was found. -/
def add (amount : UInt64) : Except StepError (SteppedUtxo hash) :=
  self.rewrap (self.data.add amount) fun _ h => (Channel.add_keeps h).1

/-- A close of a channel that was found, unless its time overflows. -/
def close (upper : Duration) : Option (Except StepError (SteppedUtxo hash)) :=
  match h : self.data.close upper with
  | none => none
  | some result =>
    some (self.rewrap result fun _ hstep => (Channel.close_keeps (h.trans (hstep ▸ rfl))).1)

variable {self} in
lemma close_eq_ok {upper : Duration} {x : SteppedUtxo hash} :
    self.close upper = some (.ok x) ↔
      x.utxo = self.utxo ∧ self.data.close upper = some (.ok x.data) := by
  rw [close]
  split
  · rename_i hnone
    simp [hnone]
  · rename_i result hsome
    rw [Option.some.injEq, rewrap_eq_ok, hsome, Option.some.injEq]

/-- An elapse of a channel that was found. -/
def elapse (lower : Duration) : Except EolError (SteppedUtxo hash) :=
  self.rewrap (self.data.elapse lower) fun _ h => (Channel.elapse_keeps h).1

/-- An end of a channel that was found. -/
def «end» (lower : Option Duration) : Except EolError (SteppedUtxo hash) :=
  self.rewrap (self.data.end lower) fun _ h => (Channel.end_keeps h).1

/-- An expire of a channel that was found. -/
def expire (lower : Duration) : Except StepError (SteppedUtxo hash) :=
  self.rewrap (self.data.expire lower) fun _ h => (Channel.expire_keeps h).1

end ChannelUtxo

/-! ### What the consumer asks for -/

/-- A channel that is to be opened. -/
structure OpenIntent where
  tag : Tag
  subVkey : VerifyingKey
  closePeriod : Duration
  amount : UInt64

/-- The constants of a channel that is to be opened. -/
def OpenIntent.constants (self : OpenIntent) (addVkey : VerifyingKey) : Constants :=
  ⟨self.tag, addVkey, self.subVkey, self.closePeriod⟩

/-- A new channel, of which nothing is subbed. -/
def Open.new (amount : UInt64) (constants : Constants) (delegation : Option Kernel.Credential) :
    Open :=
  ⟨⟨constants, ⟨amount, .opened 0 []⟩⟩, delegation⟩

/-- What is to be done to an opened channel. -/
inductive Intent where
  | add (amount : UInt64)
  | close

namespace Consumer

variable (crypto : Crypto) (params : ProtocolParameters) (hash : Kernel.ScriptHash)
  (wallet : VerifyingKey) (opens : List OpenIntent) (intents : OrdMap Tag Intent) (utxos : Utxos)
  (bounds : Bounds)

/-- The step of a channel, if there is any; nothing where the thread panics. -/
def ask {hash : Kernel.ScriptHash} (u : ChannelUtxo hash) : Option (Option (SteppedUtxo hash)) :=
  match u.data.stage with
  | .opened _ _ =>
    match intents[u.data.constants.tag]? with
    | none => some none
    | some (.add amount) => some (u.add amount).toOption
    | some .close => do
      let upper ← bounds.upper
      let result ← u.close upper
      return result.toOption
  | .closed _ _ _ => some (bounds.lower.bind fun lower => (u.elapse lower).toOption)
  | .responded _ pendings =>
    if pendings.isEmpty then some (u.end bounds.lower).toOption
    else some (bounds.lower.bind fun lower => (u.expire lower).toOption)

/-- The channels that are stepped. -/
def steppeds : Option (SteppedUtxos hash) := do
  let channels := (channelUtxos hash utxos).filter fun u => u.data.constants.addVkey = wallet
  let steppeds ← channels.mapM (ask intents bounds)
  return .ofVec (steppeds.filterMap id)

/-- The consumer's transaction, unless a time overflows. -/
def tx (change : Option Change) : Option (Except FundError TransactionBody) := do
  let reference := findReferenceScript hash utxos
  let steppeds ← steppeds hash wallet intents utxos bounds
  let opens := opens.map fun o => Open.new o.amount (o.constants wallet) none
  return fundedTx crypto params (reference.map Prod.fst) steppeds opens
    (fuelOf crypto wallet utxos) change

/-! ### What is asked of a channel -/

/-- The step that is made of a channel, and what is wanted of it. -/
inductive Asked (intents : OrdMap Tag Intent) (bounds : Bounds) (channel : Channel) :
    Tx2.Want → Stepped → Prop
  | add {subbed useds amount stepped} (hstage : channel.stage = .opened subbed useds)
      (hintent : intents[channel.constants.tag]? = some (.add amount))
      (hstep : channel.add amount = .ok stepped) :
      Asked intents bounds channel (.add amount) stepped
  | close {subbed useds upper stepped} (hstage : channel.stage = .opened subbed useds)
      (hintent : intents[channel.constants.tag]? = some .close) (hupper : bounds.upper = some upper)
      (hstep : channel.close upper = some (.ok stepped)) :
      Asked intents bounds channel .close stepped
  | elapse {subbed useds elapseAt lower stepped}
      (hstage : channel.stage = .closed subbed useds elapseAt) (hlower : bounds.lower = some lower)
      (hstep : channel.elapse lower = .ok stepped) : Asked intents bounds channel .elapse stepped
  | end {total stepped} (hstage : channel.stage = .responded total [])
      (hstep : channel.end bounds.lower = .ok stepped) : Asked intents bounds channel .end stepped
  | expire {total pendings lower stepped} (hstage : channel.stage = .responded total pendings)
      (hpendings : pendings ≠ []) (hlower : bounds.lower = some lower)
      (hstep : channel.expire lower = .ok stepped) : Asked intents bounds channel .expire stepped

variable {crypto params hash wallet opens intents utxos bounds}

section Ask

variable {channel : Channel} {u : ChannelUtxo hash} {x : SteppedUtxo hash} {want : Tx2.Want}
  {stepped : Stepped}

lemma ask_iff : ask intents bounds u = some (some x) ↔
    x.utxo = u.utxo ∧ ∃ want, Asked intents bounds u.data want x.data := by
  constructor
  · intro h
    rw [ask] at h
    split at h
    · rename_i subbed useds hstage
      split at h
      · cases h
      · rename_i amount hintent
        obtain ⟨hutxo, hstep⟩ := ChannelUtxo.rewrap_eq_ok.mp
          (Result.toOption_eq_some.mp (Option.some.inj h))
        exact ⟨hutxo, _, .add hstage hintent hstep⟩
      · rename_i hintent
        simp only [Option.bind_eq_bind, Option.bind_eq_some_iff, Option.pure_def, Option.some.injEq,
          Result.toOption_eq_some] at h
        obtain ⟨upper, hupper, _, hclose, rfl⟩ := h
        obtain ⟨hutxo, hstep⟩ := ChannelUtxo.close_eq_ok.mp hclose
        exact ⟨hutxo, _, .close hstage hintent hupper hstep⟩
    · rename_i subbed useds elapseAt hstage
      obtain ⟨lower, hlower, h⟩ := Option.bind_eq_some_iff.mp (Option.some.inj h)
      obtain ⟨hutxo, hstep⟩ := ChannelUtxo.rewrap_eq_ok.mp (Result.toOption_eq_some.mp h)
      exact ⟨hutxo, _, .elapse hstage hlower hstep⟩
    · rename_i total pendings hstage
      split_ifs at h with hempty
      · obtain rfl := List.isEmpty_iff.mp hempty
        obtain ⟨hutxo, hstep⟩ := ChannelUtxo.rewrap_eq_ok.mp
          (Result.toOption_eq_some.mp (Option.some.inj h))
        exact ⟨hutxo, _, .end hstage hstep⟩
      · obtain ⟨lower, hlower, h⟩ := Option.bind_eq_some_iff.mp (Option.some.inj h)
        obtain ⟨hutxo, hstep⟩ := ChannelUtxo.rewrap_eq_ok.mp (Result.toOption_eq_some.mp h)
        have hpendings : pendings ≠ [] := fun hnil => hempty (List.isEmpty_iff.mpr hnil)
        exact ⟨hutxo, _, .expire hstage hpendings hlower hstep⟩
  · rintro ⟨hutxo, want, hasked⟩
    have hok : ∀ {ε : Type} {result : Except ε Stepped} {hkeeps}, result = .ok x.data →
        (u.rewrap result hkeeps).toOption = some x := fun hstep =>
      Result.toOption_eq_some.mpr (ChannelUtxo.rewrap_eq_ok.mpr ⟨hutxo, hstep⟩)
    cases hasked with
    | add hstage hintent hstep =>
      simp only [ask, hstage, hintent]
      exact congrArg some (hok hstep)
    | close hstage hintent hupper hstep =>
      have hclose := ChannelUtxo.close_eq_ok.mpr ⟨hutxo, hstep⟩
      simp only [ask, hstage, hintent, hupper, Option.bind_eq_bind, Option.bind_some, hclose]
      rfl
    | elapse hstage hlower hstep =>
      simp only [ask, hstage, hlower, Option.bind_some]
      exact congrArg some (hok hstep)
    | «end» hstage hstep =>
      simp only [ask, hstage, List.isEmpty_nil, if_true]
      exact congrArg some (hok hstep)
    | expire hstage hpendings hlower hstep =>
      simp only [ask, hstage, List.isEmpty_iff, hpendings, if_false, hlower, Option.bind_some]
      exact congrArg some (hok hstep)

lemma Asked.keeps (h : Asked intents bounds channel want stepped) :
    stepped.channel = channel ∧ stepped.bounds.Within bounds := by
  cases h with
  | add hstage hintent hstep =>
    obtain ⟨hchannel, hbounds⟩ := Channel.add_keeps hstep
    exact ⟨hchannel, hbounds ▸ ⟨nofun, nofun⟩⟩
  | close hstage hintent hupper hstep =>
    obtain ⟨hchannel, hbounds⟩ := Channel.close_keeps hstep
    exact ⟨hchannel, hbounds ▸ ⟨nofun, fun d hd => hd ▸ hupper⟩⟩
  | elapse hstage hlower hstep =>
    obtain ⟨hchannel, hbounds⟩ := Channel.elapse_keeps hstep
    exact ⟨hchannel, hbounds ▸ ⟨fun d hd => hd ▸ hlower, nofun⟩⟩
  | «end» hstage hstep =>
    obtain ⟨hchannel, hbounds⟩ := Channel.end_keeps hstep
    exact ⟨hchannel, hbounds.trans ⟨fun _ hd => hd, nofun⟩⟩
  | expire hstage hpendings hlower hstep =>
    obtain ⟨hchannel, hbounds⟩ := Channel.expire_keeps hstep
    exact ⟨hchannel, hbounds ▸ ⟨fun d hd => hd ▸ hlower, nofun⟩⟩

end Ask

/-! ### When a step is accepted -/

/-- The kernel makes the same of the same step. -/
lemma run_eq_of_stepTo {stepped : Stepped} {will : Tx2.Will} (h : stepped.stepTo = will.stepTo)
    (kbounds : Kernel.Bounds) (constants : Kernel.Constants) (valueIn : Kernel.Value)
    (stageIn : Kernel.Stage) :
    stepped.run crypto kbounds constants valueIn stageIn =
      will.run crypto kbounds constants valueIn stageIn := by
  obtain ⟨channel, stepTo, b⟩ := stepped
  obtain rfl : stepTo = _ := h
  cases will <;> rfl

/-- A step of the first builder is accepted just when what the second one makes of the want is. -/
lemma run_iff {channel : Tx2.Channel} {stepped : Stepped} {result : Except Tx2.StepError Tx2.Will}
    {kbounds : Kernel.Bounds} {valueIn : Kernel.Value}
    (h : some stepped.stepTo = result.toOption.map Tx2.Will.stepTo) :
    (∃ vkey, stepped.run crypto kbounds channel.constants.toKernel valueIn
        channel.stage.toKernel = some vkey) ↔
      ∀ will, result = .ok will → Tx2.Accepted crypto kbounds channel valueIn will := by
  obtain ⟨will, hwill, hstep⟩ := Option.map_eq_some_iff.mp h.symm
  obtain rfl := Result.toOption_eq_some.mp hwill
  rw [run_eq_of_stepTo hstep.symm]
  constructor
  · intro haccepted will' hwill'
    rw [← Except.ok.inj hwill']
    exact haccepted
  · exact fun haccepted => haccepted will rfl

/-- Between bounds that have its own, the step of a channel is accepted just when it holds. -/
lemma Asked.accepted_iff {channel : Tx2.Channel} {want : Tx2.Want} {stepped : Stepped}
    (h : Asked intents bounds channel.toTx want stepped) {output : Kernel.Output}
    (hread : Tx2.Channel.tryFrom hash output = .ok channel) {interval : Tx2.Interval}
    (hwithin : stepped.bounds.Within ⟨interval.lower, interval.upper⟩)
    (hinterval : interval.Canonical) :
    (∃ vkey, stepped.run crypto (interval.bounds params) channel.constants.toKernel output.value
        channel.stage.toKernel = some vkey) ↔
      Tx2.ConsumerHolds output.lovelace channel.constants.closePeriod ⟨bounds.lower, bounds.upper⟩
        channel.stage want := by
  obtain ⟨constants, stage, hreads⟩ := Tx2.Channel.reads_of_tryFrom hread
  have hperiod := hreads.canonical_closePeriod
  have hstageIn := hreads.canonical_stage
  have hvalue := Kernel.Output.amountIn_value output
  cases h with
  | @add _ _ amount _ hstage hintent hstep =>
    have hagree := @Tx2.add_agree crypto channel amount interval
    rw [hstep] at hagree
    rw [run_iff hagree]
    exact Tx2.wantAdd_iff hvalue hreads.amount amount
  | @close subbed useds upper _ hstage hintent hupper hstep =>
    have hinner : interval.upper = some upper :=
      hwithin.upper upper (by rw [(Channel.close_keeps hstep).2]; rfl)
    have hagree := @Tx2.close_agree crypto channel interval.lower upper
    rw [hstep, ← hinner] at hagree
    refine (run_iff hagree).trans
      ((Tx2.wantClose_iff hvalue hreads.amount hperiod hinterval).trans ?_)
    simp only [Tx2.ConsumerHolds, hinner, hupper]
  | @elapse subbed useds elapseAt lower _ hstage hlower hstep =>
    have hinner : interval.lower = some lower :=
      hwithin.lower lower (by rw [(Channel.elapse_keeps hstep).2]; rfl)
    have hagree := @Tx2.elapse_agree crypto channel lower interval.upper
    rw [hstep, ← hinner] at hagree
    have hwant := @Tx2.wantElapse_iff crypto channel output.lovelace output.value interval params
      hstageIn hinterval
    refine (run_iff hagree).trans (hwant.trans ?_)
    simp only [Tx2.ConsumerHolds, hinner, hlower]
  | @«end» total _ hstage hstep =>
    -- with nothing pending no bound is looked at
    have hsame : channel.toTx.end interval.lower = channel.toTx.end bounds.lower := by
      simp only [Channel.end, hstage, List.isEmpty_nil, if_true]
    have hagree := @Tx2.end_agree crypto channel interval.lower interval.upper
    rw [hsame, hstep] at hagree
    have hwant := @Tx2.wantEnd_iff crypto channel output.lovelace output.value interval params
      hstageIn hinterval
    refine (run_iff hagree).trans (hwant.trans ?_)
    have hkind : channel.stage = .responded total [] := hstage
    simp only [Tx2.ConsumerHolds, hkind]
    cases interval.lower <;> cases bounds.lower <;> simp
  | @expire total pendings lower _ hstage hpendings hlower hstep =>
    have hinner : interval.lower = some lower :=
      hwithin.lower lower (by rw [(Channel.expire_keeps hstep).2]; rfl)
    have hagree := @Tx2.expire_agree crypto channel lower interval.upper
    rw [hstep, ← hinner] at hagree
    have hwant := @Tx2.wantExpire_iff crypto channel output.lovelace output.value interval params
      hstageIn hinterval
    refine (run_iff hagree).trans (hwant.trans ?_)
    simp only [Tx2.ConsumerHolds, hinner, hlower]

/-! ### When main accepts the transaction -/

/-- The channel is found, is the consumer's, and is stepped by what is wanted of it. -/
structure Steps (wallet : VerifyingKey) (intents : OrdMap Tag Intent) (utxos : Utxos)
    (bounds : Bounds) (x : SteppedUtxo hash) (want : Tx2.Want) : Prop where
  found : utxos[x.utxo.outputReference]? = some x.utxo.output
  own : x.data.channel.constants.addVkey = wallet
  asked : Asked intents bounds x.data.channel want x.data

variable {s : SteppedUtxos hash}

/-- The channels that are stepped, each once. -/
lemma steppeds_eq_some (h : steppeds hash wallet intents utxos bounds = some s) :
    s.Found utxos ∧ ∀ x, x ∈ s.items ↔ ∃ want, Steps wallet intents utxos bounds x want := by
  simp only [steppeds, Option.bind_eq_bind, Option.bind_eq_some_iff, Option.pure_def,
    Option.some.injEq] at h
  obtain ⟨l, hl, rfl⟩ := h
  rw [Result.filterMap_of_mapM hl, List.filterMap_filter]
  have hask : ∀ {u : ChannelUtxo hash} {x : SteppedUtxo hash},
      (if decide (u.data.constants.addVkey = wallet) = true
        then (ask intents bounds u).join else none) = some x ↔
        u.data.constants.addVkey = wallet ∧ x.utxo = u.utxo ∧
          ∃ want, Asked intents bounds u.data want x.data := by
    intro u x
    rw [← ask_iff, ← Option.join_eq_some_iff]
    split_ifs with hown <;> simp_all
  refine ⟨SteppedUtxos.found_ofVec fun u x hx => (hask.mp hx).2.1, fun x => ?_⟩
  rw [SteppedUtxos.ofVec, List.mem_mergeSort, List.mem_filterMap]
  constructor
  · rintro ⟨u, hu, hx⟩
    obtain ⟨hown, hutxo, want, hasked⟩ := hask.mp hx
    have hchannel := hasked.keeps.1
    exact ⟨want, hutxo ▸ mem_channelUtxos.mp hu, hchannel ▸ hown, hchannel ▸ hasked⟩
  · rintro ⟨want, hsteps⟩
    exact ⟨⟨x.utxo, x.data.channel, x.read⟩, mem_channelUtxos.mpr hsteps.found,
      hask.mpr ⟨hsteps.own, rfl, want, hsteps.asked⟩⟩

/-- Every step is one between the bounds that are given. -/
lemma within_bounds (h : steppeds hash wallet intents utxos bounds = some s) :
    s.bounds.Within bounds ∧ ∀ x ∈ s.items, x.data.bounds.Within s.bounds := by
  refine SteppedUtxos.bounds_within fun x hx => ?_
  obtain ⟨want, hsteps⟩ := ((steppeds_eq_some h).2 x).mp hx
  exact hsteps.asked.keeps.2

/-- On the ledger one step of a channel with a datum of its own is accepted, as a part of the batch,
just when it holds. -/
lemma Steps.accepted_iff {x : SteppedUtxo hash} {want : Tx2.Want}
    (h : Steps wallet intents utxos bounds x want) (hown : x.data.channel.Own x.utxo.output)
    {interval : Tx2.Interval}
    (hwithin : x.data.bounds.Within ⟨interval.lower, interval.upper⟩)
    (hinterval : interval.Canonical) :
    (∀ constants stage, x.utxo.output.channel = some ⟨hash, constants, stage⟩ →
        ∃ vkey, x.data.run crypto (interval.bounds params) constants x.utxo.output.value stage =
          some vkey) ↔
      Tx2.ConsumerHolds x.utxo.output.lovelace x.data.channel.constants.closePeriod
        ⟨bounds.lower, bounds.upper⟩ x.data.channel.stage want := by
  obtain ⟨channel, hread, hchannel⟩ := Channel.tryFrom_eq_ok.mp x.read
  obtain ⟨constants, stage, hreads⟩ := Tx2.Channel.reads_of_tryFrom hread
  have hasked := h.asked
  rw [← hchannel] at hasked hown ⊢
  have haccepted := @Asked.accepted_iff crypto params hash intents bounds channel want x.data
    hasked x.utxo.output hread interval hwithin hinterval
  refine Iff.trans ?_ haccepted
  rw [hreads.constants_toKernel hown, hreads.stage_toKernel hown]
  constructor
  · exact fun hall => hall _ _ hreads.onChain
  · intro hrun constants' stage' honChain
    obtain ⟨-, rfl, rfl⟩ := Kernel.Datum.mk.inj
      (Option.some.inj (hreads.onChain.symm.trans honChain))
    exact hrun

end Consumer

/-- The transaction can be put on the ledger, and main accepts it just when each step holds. -/
structure ConsumerSettles (crypto : Crypto) (params : ProtocolParameters)
    (hash : Kernel.ScriptHash) (wallet : VerifyingKey) (intents : OrdMap Tag Intent)
    (utxos : Utxos) (bounds : Bounds) (body : TransactionBody)
    (ledger : Kernel.OutputReference → Option Kernel.Output) : Prop where
  shown : ∃ t redeemers, body.Shown ledger params.slotConfig t redeemers
  validates_iff : ∀ t redeemers, body.Shown ledger params.slotConfig t redeemers →
    (t.Validates crypto hash redeemers ↔ ∀ (x : SteppedUtxo hash) want,
      Consumer.Steps wallet intents utxos bounds x want →
        Tx2.ConsumerHolds x.utxo.output.lovelace x.data.channel.constants.closePeriod
          ⟨bounds.lower, bounds.upper⟩ x.data.channel.stage want)

/-- **The consumer's transaction.**  Between bounds in whole milliseconds, what the consumer makes
of channels that are found on the ledger, with datums of their own, can be put there, and main
accepts it just when each step holds. -/
theorem consumer_settles {crypto : Crypto} {params : ProtocolParameters} {hash : Kernel.ScriptHash}
    {wallet : VerifyingKey} {opens : List OpenIntent} {intents : OrdMap Tag Intent} {utxos : Utxos}
    {bounds : Bounds} {change : Option Change} {body : TransactionBody}
    (hbuild : Consumer.tx crypto params hash wallet opens intents utxos bounds change =
      some (.ok body))
    (hbounds : Tx2.Interval.Canonical ⟨bounds.lower, bounds.upper⟩)
    (hown : ∀ (x : SteppedUtxo hash) want, Consumer.Steps wallet intents utxos bounds x want →
      x.data.channel.Own x.utxo.output)
    {ledger : Kernel.OutputReference → Option Kernel.Output} (hledger : OnLedger ledger utxos) :
    ConsumerSettles crypto params hash wallet intents utxos bounds body ledger := by
  simp only [Consumer.tx, Option.bind_eq_bind, Option.bind_eq_some_iff, Option.pure_def,
    Option.some.injEq] at hbuild
  obtain ⟨s, hs, hbuild⟩ := hbuild
  obtain ⟨hfound, hmem⟩ := Consumer.steppeds_eq_some hs
  obtain ⟨hwithin, hitems⟩ := Consumer.within_bounds hs
  refine ⟨SteppedUtxos.exists_shown hbuild hfound hledger, fun t redeemers hshown => ?_⟩
  have hinterval : Tx2.Interval.Canonical ⟨s.bounds.lower, s.bounds.upper⟩ :=
    ⟨fun d hd => hbounds.lower d (hwithin.lower d hd),
      fun d hd => hbounds.upper d (hwithin.upper d hd)⟩
  have hconstants : s.OwnConstants := by
    intro x hx _ _ _
    obtain ⟨want, hsteps⟩ := (hmem x).mp hx
    exact (hown x want hsteps).ownConstants
  rw [SteppedUtxos.funded_validates_iff hbuild hfound hledger hshown, and_iff_left hconstants,
    SteppedUtxos.Accepted]
  constructor
  · intro haccepted x want hsteps
    have hx := (hmem x).mpr ⟨want, hsteps⟩
    exact (hsteps.accepted_iff (hown x want hsteps) (hitems x hx) hinterval).mp (haccepted x hx)
  · intro hholds x hx
    obtain ⟨want, hsteps⟩ := (hmem x).mp hx
    exact (hsteps.accepted_iff (hown x want hsteps) (hitems x hx) hinterval).mpr
      (hholds x want hsteps)

/-! ### A channel that is added to -/

namespace Consumer.Sample

/-- A key of zero bytes. -/
def wallet : VerifyingKey := ⟨BytesN.fill 32 0⟩

/-- An opened channel, the wallet, and the script. -/
def utxos : Utxos := (((∅ : Utxos).insert ⟨List.replicate 32 0, 0⟩ Tx2.Sample.opened).insert
  ⟨List.replicate 32 0, 1⟩ ⟨walletAddress .noCrypto wallet, 20_000_000, [], .noDatum, none⟩).insert
    ⟨List.replicate 32 0, 2⟩ ⟨⟨.verificationKey (List.replicate 28 1), none⟩, 2_000_000, [],
      .noDatum, some Tx2.Sample.hash⟩

/-- Five ada more. -/
def intents : OrdMap Tag Intent := (∅ : OrdMap Tag Intent).insert ⟨[]⟩ (.add 5_000_000)

/-- Another channel, of one ada. -/
def opens : List OpenIntent := [⟨⟨[1]⟩, wallet, .fromMillis 86_400_000, 1_000_000⟩]

lemma own_utxos : ∀ u ∈ channelUtxos Tx2.Sample.hash utxos,
    u.utxo.output.channel =
      some ⟨Tx2.Sample.hash, u.data.constants.toKernel, u.data.stage.toKernel⟩ := by
  decide +kernel

lemma exists_tx : ∃ body, Consumer.tx .noCrypto Tx2.Sample.preprod Tx2.Sample.hash wallet opens
    intents utxos ⟨none, none⟩ none = some (.ok body) := by
  have hbuilt : (Consumer.tx .noCrypto Tx2.Sample.preprod Tx2.Sample.hash wallet opens intents utxos
      ⟨none, none⟩ none).map Except.isOk = some true := by
    decide +kernel
  obtain ⟨result, hresult, hok⟩ := Option.map_eq_some_iff.mp hbuilt
  obtain ⟨body, rfl⟩ := Result.exists_eq_ok hok
  exact ⟨body, hresult⟩

end Consumer.Sample

/-- Of one opened channel, while another one is opened. -/
theorem consumer_settles_of_add : ∃ body,
    Consumer.tx .noCrypto Tx2.Sample.preprod Tx2.Sample.hash Consumer.Sample.wallet
        Consumer.Sample.opens Consumer.Sample.intents Consumer.Sample.utxos ⟨none, none⟩ none =
          some (.ok body) ∧
      ConsumerSettles .noCrypto Tx2.Sample.preprod Tx2.Sample.hash Consumer.Sample.wallet
        Consumer.Sample.intents Consumer.Sample.utxos ⟨none, none⟩ body
          fun oref => Consumer.Sample.utxos[oref]? := by
  obtain ⟨body, hbody⟩ := Consumer.Sample.exists_tx
  refine ⟨body, hbody, consumer_settles hbody ⟨nofun, nofun⟩ (fun x want hsteps => ?_)
    fun _ _ h => h⟩
  exact ⟨_, Consumer.Sample.own_utxos ⟨x.utxo, x.data.channel, x.read⟩
    (mem_channelUtxos.mpr hsteps.found)⟩

end Konduit.Tx
