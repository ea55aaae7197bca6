import Konduit.Server.Evidence
import Konduit.Server.SyncRetainers
import Konduit.Tx.AnySub
import Konduit.Tx.ChannelUtxos

/-!
# The adaptor's transaction

Of the channels of a ledger those are claimed that name the wallet and that there is a receipt for,
where that gains enough, all in one transaction.  With evident receipts the kernel accepts it just
when each claim holds (`Adaptor.validates_iff`).
-/

open Lib

namespace Konduit.Tx

open Data Cardano Tmp
open Server (Keytag keytagOf)

/-- What is worth a transaction to the adaptor. -/
structure AdaptorPreferences where
  /-- No channel is spent that gains less. -/
  minSingle : UInt64
  /-- No transaction is made that gains less. -/
  minTotal : UInt64

/-! ### Which channels are claimed -/

/-- What is built is of the channel, and up to the bound. -/
lemma Channel.anySub_keeps {crypto : Crypto} {self : Channel} {receipt : Receipt}
    {upper : Duration} {stepped : Stepped} (h : self.anySub crypto receipt upper = .ok stepped) :
    stepped.channel = self ∧ stepped.bounds = .ofUpper upper := by
  obtain ⟨constants, amount, stage⟩ := self
  cases stage with
  | opened subbed useds =>
    obtain ⟨-, rfl⟩ := (Tx2.sub_eq_ok rfl).mp h
    exact ⟨rfl, rfl⟩
  | closed subbed useds elapseAt =>
    obtain rfl := (Tx2.respond_eq_ok rfl).mp h
    exact ⟨rfl, rfl⟩
  | responded total pendings =>
    change Channel.unlock ⟨constants, amount, .responded total pendings⟩ crypto receipt upper =
      _ at h
    rw [unlock, unlockWithSecrets_eq rfl] at h
    obtain rfl := Except.ok.inj h
    exact ⟨rfl, rfl⟩

variable {hash : Kernel.ScriptHash}

/-- The adaptor's step for a channel that was found. -/
def ChannelUtxo.anySub (self : ChannelUtxo hash) (crypto : Crypto) (receipt : Receipt)
    (upper : Duration) : Except StepError (SteppedUtxo hash) :=
  self.rewrap (self.data.anySub crypto receipt upper) fun _ h => (Channel.anySub_keeps h).1

namespace Adaptor

/-- Why no transaction is made. -/
inductive TxError where
  | noReference
  | insufficientTotalGain (minTotal : UInt64) (gain : Int64)
  | fund (e : FundError)

variable (crypto : Crypto) (params : ProtocolParameters) (hash : Kernel.ScriptHash)
  (preferences : AdaptorPreferences) (wallet : VerifyingKey) (receipts : OrdMap Keytag Receipt)
  (utxos : Utxos) (upper : Duration)

/-- The channels that are claimed. -/
def steppeds : SteppedUtxos hash :=
  let channels := (channelUtxos hash utxos).filter fun u => u.data.constants.subVkey = wallet
  .ofVec <| (channels.filterMap fun u => receipts[keytagOf u.data]?.bind fun receipt =>
    (u.anySub crypto receipt upper).toOption).filter fun u =>
      preferences.minSingle.toInt64 ≤ u.gain

/-- The transaction of all steps that are worth it. -/
def tx (change : Option Change) : Except TxError TransactionBody :=
  let reference := findReferenceScript hash utxos
  if reference.isNone then .error .noReference
  else
    let steppeds := steppeds crypto hash preferences wallet receipts utxos upper
    if steppeds.gain < preferences.minTotal.toInt64 then
      .error (.insufficientTotalGain preferences.minTotal steppeds.gain)
    else
      (fundedTx crypto params (reference.map Prod.fst) steppeds [] (fuelOf crypto wallet utxos)
        change).mapError .fund

/-- Each claim of the adaptor holds. -/
def Holds : Prop :=
  ∀ x ∈ (steppeds crypto hash preferences wallet receipts utxos upper).items,
    ∀ receipt, receipts[keytagOf x.data.channel]? = some receipt →
      ClaimHolds x.utxo.output.lovelace x.data.channel.stage receipt upper

/-! ### When main accepts it -/

variable {crypto params hash preferences wallet receipts utxos upper}

lemma mem_steppeds {x : SteppedUtxo hash} :
    x ∈ (steppeds crypto hash preferences wallet receipts utxos upper).items ↔
      utxos[x.utxo.outputReference]? = some x.utxo.output ∧
        x.data.channel.constants.subVkey = wallet ∧
        (∃ receipt, receipts[keytagOf x.data.channel]? = some receipt ∧
          x.data.channel.anySub crypto receipt upper = .ok x.data) ∧
        preferences.minSingle.toInt64 ≤ x.gain := by
  rw [steppeds, SteppedUtxos.ofVec, List.mem_mergeSort, List.mem_filter, List.mem_filterMap,
    decide_eq_true_eq]
  constructor
  · rintro ⟨⟨u, hu, hstep⟩, hgain⟩
    obtain ⟨hmem, hwallet⟩ := List.mem_filter.mp hu
    obtain ⟨receipt, hreceipt, hstep⟩ := Option.bind_eq_some_iff.mp hstep
    obtain ⟨hutxo, hstep⟩ := ChannelUtxo.rewrap_eq_ok.mp (Result.toOption_eq_some.mp hstep)
    have hchannel := (Channel.anySub_keeps hstep).1
    rw [hutxo, hchannel]
    exact ⟨mem_channelUtxos.mp hmem, of_decide_eq_true hwallet, ⟨receipt, hreceipt, hstep⟩, hgain⟩
  · rintro ⟨hmem, hwallet, ⟨receipt, hreceipt, hstep⟩, hgain⟩
    refine ⟨⟨⟨x.utxo, x.data.channel, x.read⟩, ?_, ?_⟩, hgain⟩
    · exact List.mem_filter.mpr ⟨mem_channelUtxos.mpr hmem, decide_eq_true hwallet⟩
    · rw [Option.bind_eq_some_iff]
      exact ⟨receipt, hreceipt,
        Result.toOption_eq_some.mpr (ChannelUtxo.rewrap_eq_ok.mpr ⟨rfl, hstep⟩)⟩

lemma found_steppeds :
    (steppeds crypto hash preferences wallet receipts utxos upper).Found utxos := by
  rw [steppeds, List.filterMap_filter, List.filter_filterMap]
  refine SteppedUtxos.found_ofVec fun u x hux => ?_
  obtain ⟨hstep, -⟩ := Option.filter_eq_some_iff.mp hux
  split_ifs at hstep
  obtain ⟨receipt, -, hstep⟩ := Option.bind_eq_some_iff.mp hstep
  exact (ChannelUtxo.rewrap_eq_ok.mp (Result.toOption_eq_some.mp hstep)).1

/-- What is made is a batch of the channels that are claimed. -/
lemma tx_eq_ok {change : Option Change} {body : TransactionBody}
    (h : tx crypto params hash preferences wallet receipts utxos upper change = .ok body) :
    fundedTx crypto params ((findReferenceScript hash utxos).map Prod.fst)
      (steppeds crypto hash preferences wallet receipts utxos upper) [] (fuelOf crypto wallet utxos)
        change = .ok body := by
  simp only [tx] at h
  split_ifs at h
  exact Result.mapError_eq_ok.mp h

variable (params) in
/-- What the validator is shown of the upper bound, where there is a channel. -/
lemma bounds_upper (hupper : upper.Canonical) {x : SteppedUtxo hash}
    (hx : x ∈ (steppeds crypto hash preferences wallet receipts utxos upper).items) :
    (Tx2.Interval.bounds
      ⟨(steppeds crypto hash preferences wallet receipts utxos upper).bounds.lower,
        (steppeds crypto hash preferences wallet receipts utxos upper).bounds.upper⟩ params).upper =
      .finite ((1000 * upper.asSecs : ℕ) : ℤ) := by
  have hall : ∀ y ∈ (steppeds crypto hash preferences wallet receipts utxos upper).items,
      y.data.bounds = .ofUpper upper := by
    intro y hy
    obtain ⟨-, -, ⟨receipt, -, hstep⟩, -⟩ := mem_steppeds.mp hy
    exact (Channel.anySub_keeps hstep).2
  have hkept : ∀ y ∈ (steppeds crypto hash preferences wallet receipts utxos upper).items,
      y.data.bounds.Within (.ofUpper upper) := by
    intro y hy
    rw [hall y hy]
    exact .refl _
  obtain ⟨hwithin, hitems⟩ := SteppedUtxos.bounds_within hkept
  refine Tx2.Interval.upper_bounds ⟨fun d hd => ?_, fun d hd => ?_⟩ ?_
  · cases hwithin.lower d hd
  · obtain rfl := Option.some.inj (hwithin.upper d hd)
    exact hupper
  · refine (hitems x hx).upper upper ?_
    rw [hall x hx]
    rfl

/-- Where the receipts are evident, and the channels have datums of their own with useds in order,
main accepts the transaction just when each claim holds. -/
lemma validates_iff {change : Option Change} {body : TransactionBody}
    (hbuild : tx crypto params hash preferences wallet receipts utxos upper change = .ok body)
    (hreceipts : ∀ keytag receipt, receipts[keytag]? = some receipt →
      Server.Evident crypto keytag receipt)
    (huseds : ∀ x ∈ (steppeds crypto hash preferences wallet receipts utxos upper).items,
      x.data.channel.stage.useds.Pairwise (·.index < ·.index))
    (hown : ∀ x ∈ (steppeds crypto hash preferences wallet receipts utxos upper).items,
      x.data.channel.Own x.utxo.output)
    (hupper : upper.Canonical) {ledger : Kernel.OutputReference → Option Kernel.Output}
    (hledger : OnLedger ledger utxos) {t : Kernel.Transaction}
    {redeemers : Kernel.OutputReference → Kernel.Redeemer}
    (hshown : body.Shown ledger params.slotConfig t redeemers) :
    t.Validates crypto hash redeemers ↔
      Holds crypto hash preferences wallet receipts utxos upper := by
  have hconstants : (steppeds crypto hash preferences wallet receipts utxos upper).OwnConstants :=
    fun x hx _ _ _ => (hown x hx).ownConstants
  rw [SteppedUtxos.funded_validates_iff (tx_eq_ok hbuild) found_steppeds hledger hshown,
    and_iff_left hconstants, SteppedUtxos.Accepted, Holds]
  refine forall₂_congr fun x hx => ?_
  obtain ⟨-, -, ⟨receipt, hreceipt, hstep⟩, -⟩ := mem_steppeds.mp hx
  have hevident := hreceipts _ receipt hreceipt
  have hbounds := bounds_upper params hupper hx
  have hmillis : ((1000 * upper.asSecs : ℕ) : ℤ) ≤ upper.asMillis := by
    rw [Duration.asSecs, Duration.asMillis]
    omega
  generalize Tx2.Interval.bounds _ params = bounds at hbounds ⊢
  obtain ⟨lower, top⟩ := bounds
  obtain rfl : top = _ := hbounds
  have hclaim : ∀ {constants stage}, x.utxo.output.channel = some ⟨hash, constants, stage⟩ →
      ((∃ vkey, x.data.run crypto ⟨lower, _⟩ constants x.utxo.output.value stage = some vkey) ↔
        ClaimHolds x.utxo.output.lovelace x.data.channel.stage receipt upper) := fun honChain =>
    accepted_anySub_iff x.read (hown x hx) honChain (hevident.respond rfl rfl (huseds x hx))
      hevident.canonical hmillis hstep
  constructor
  · intro haccepted receipt' hreceipt'
    obtain rfl := Option.some.inj (hreceipt.symm.trans hreceipt')
    obtain ⟨-, _, _, honChain, -⟩ := x.onChain
    exact (hclaim honChain).mp (haccepted _ _ honChain)
  · intro hholds constants stage honChain
    exact (hclaim honChain).mpr (hholds receipt hreceipt)

end Adaptor

end Konduit.Tx
