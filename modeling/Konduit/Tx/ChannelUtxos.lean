import Konduit.Tx.Funding

/-!
# Channels of a ledger

Channels are found among the outputs of a ledger, and stepped.  The transaction of a batch is
funded out of the wallet, with the first output that carries the validator's script.  Main accepts
it just when each step is accepted on its own and the constants of what is to continue are the
channels' own (`SteppedUtxos.funded_validates_iff`).
-/

open Lib

namespace Konduit.Tx

open Data Cardano
open Kernel (OutputReference Verified)

/-! ### What is found -/

/-- An output, with the channel that is read off it. -/
structure ChannelUtxo (hash : Kernel.ScriptHash) where
  utxo : Kernel.Input
  data : Channel
  read : Channel.tryFrom hash utxo.output = .ok data

namespace ChannelUtxo

variable {hash : Kernel.ScriptHash}

variable (hash) in
/-- The channel of an output, if one is read. -/
def tryFrom (utxo : OutputReference × Kernel.Output) : Option (ChannelUtxo hash) :=
  match h : Channel.tryFrom hash utxo.2 with
  | .ok data => some ⟨⟨utxo.1, utxo.2⟩, data, h⟩
  | .error _ => none

/-- A step of the channel, with the output. -/
def rewrap {ε : Type} (self : ChannelUtxo hash) (result : Except ε Stepped)
    (h : ∀ stepped, result = .ok stepped → stepped.channel = self.data) :
    Except ε (SteppedUtxo hash) :=
  match result, h with
  | .ok stepped, h => .ok ⟨self.utxo, stepped, (h stepped rfl).symm ▸ self.read⟩
  | .error e, _ => .error e

variable {self : ChannelUtxo hash} {utxos : Utxos}

lemma tryFrom_eq_some {utxo : OutputReference × Kernel.Output} (h : tryFrom hash utxo = some self) :
    self.utxo = ⟨utxo.1, utxo.2⟩ := by
  rw [tryFrom] at h
  split at h
  · rw [← Option.some.inj h]
  · cases h

/-- Where there is a channel, it is found. -/
lemma tryFrom_of_read {oref : OutputReference} {output : Kernel.Output} {data : Channel}
    (h : Channel.tryFrom hash output = .ok data) :
    tryFrom hash (oref, output) = some ⟨⟨oref, output⟩, data, h⟩ := by
  rw [tryFrom]
  split
  · rename_i data' h'
    obtain rfl := Except.ok.inj (h.symm.trans h')
    rfl
  · rename_i e he
    exact absurd (h.symm.trans he) (by simp)

lemma rewrap_eq_ok {ε : Type} {result : Except ε Stepped}
    {h : ∀ stepped, result = .ok stepped → stepped.channel = self.data} {x : SteppedUtxo hash} :
    self.rewrap result h = .ok x ↔ x.utxo = self.utxo ∧ result = .ok x.data := by
  obtain ⟨utxo, data, read⟩ := x
  cases result with
  | ok stepped =>
    simp only [rewrap, Except.ok.injEq, SteppedUtxo.mk.injEq]
    exact and_congr eq_comm Iff.rfl
  | error e => simp [rewrap]

end ChannelUtxo

/-- The channels of a ledger. -/
def channelUtxos (hash : Kernel.ScriptHash) (utxos : Utxos) : List (ChannelUtxo hash) :=
  utxos.toList.filterMap (ChannelUtxo.tryFrom hash)

lemma mem_channelUtxos {hash : Kernel.ScriptHash} {utxos : Utxos} {u : ChannelUtxo hash} :
    u ∈ channelUtxos hash utxos ↔ utxos[u.utxo.outputReference]? = some u.utxo.output := by
  rw [channelUtxos, List.mem_filterMap]
  constructor
  · rintro ⟨⟨oref, output⟩, hmem, htry⟩
    rw [ChannelUtxo.tryFrom_eq_some htry]
    exact OrdMap.mem_toList_iff.mp hmem
  · intro h
    exact ⟨_, OrdMap.mem_toList_iff.mpr h, ChannelUtxo.tryFrom_of_read u.read⟩

/-- The first output that carries the validator's script. -/
def findReferenceScript (hash : Kernel.ScriptHash) (utxos : Utxos) :
    Option (OutputReference × Kernel.Output) :=
  utxos.toList.find? fun x => x.2.referenceScript = some hash

/-- The address of a key. -/
def walletAddress (crypto : Crypto) (wallet : VerifyingKey) : Kernel.Address :=
  ⟨.verificationKey (crypto.blake2b224 wallet.bytes.1).1, none⟩

/-- The outputs of the wallet. -/
def fuelOf (crypto : Crypto) (wallet : VerifyingKey) (utxos : Utxos) : Utxos :=
  utxos.filter fun _ output => output.address = walletAddress crypto wallet

/-! ### Bounds of a batch -/

/-- There are no bounds but those of the other. -/
structure Bounds.Within (inner outer : Bounds) : Prop where
  lower : ∀ d, inner.lower = some d → outer.lower = some d
  upper : ∀ d, inner.upper = some d → outer.upper = some d

namespace Bounds

variable {a b c : Bounds}

lemma Within.refl (a : Bounds) : a.Within a := ⟨fun _ h => h, fun _ h => h⟩

lemma Within.none (a : Bounds) : Within ⟨.none, .none⟩ a := ⟨by simp, by simp⟩

lemma Within.trans (hab : a.Within b) (hbc : b.Within c) : a.Within c :=
  ⟨fun d h => hbc.lower d (hab.lower d h), fun d h => hbc.upper d (hab.upper d h)⟩

/-- Bounds that agree are those of either. -/
lemma intersect_eq (ha : a.Within c) (hb : b.Within c) :
    a.intersect b = ⟨a.lower.or b.lower, a.upper.or b.upper⟩ := by
  have hlower : ∀ d d', a.lower = some d → b.lower = some d' → d = d' := fun d d' hd hd' =>
    Option.some.inj ((ha.lower d hd).symm.trans (hb.lower d' hd'))
  have hupper : ∀ d d', a.upper = some d → b.upper = some d' → d = d' := fun d d' hd hd' =>
    Option.some.inj ((ha.upper d hd).symm.trans (hb.upper d' hd'))
  rw [intersect, Bounds.mk.injEq]
  constructor
  · split
    · rename_i d d' hd hd'
      rw [hd, hlower d d' hd hd', max_self, Option.some_or]
    · rfl
  · split
    · rename_i d d' hd hd'
      rw [hd, hupper d d' hd hd', min_self, Option.some_or]
    · rfl

/-- Of two values that agree, either is the first that is there. -/
lemma or_agree {α : Type} {x y z : Option α} (hx : ∀ d, x = some d → z = some d)
    (hy : ∀ d, y = some d → z = some d) :
    (∀ d, x.or y = some d → z = some d) ∧ (∀ d, x = some d → x.or y = some d) ∧
      ∀ d, y = some d → x.or y = some d := by
  cases x with
  | none => exact ⟨hy, nofun, fun _ h => h⟩
  | some a => exact ⟨hx, fun _ h => h, fun d h => (hx a rfl).symm.trans (hy d h)⟩

lemma Within.intersect (ha : a.Within c) (hb : b.Within c) :
    (a.intersect b).Within c ∧ a.Within (a.intersect b) ∧ b.Within (a.intersect b) := by
  rw [intersect_eq ha hb]
  obtain ⟨hlower, hleft, hright⟩ := or_agree ha.lower hb.lower
  obtain ⟨hupper, hleft', hright'⟩ := or_agree ha.upper hb.upper
  exact ⟨⟨hlower, hupper⟩, ⟨hleft, hleft'⟩, ⟨hright, hright'⟩⟩

end Bounds

namespace SteppedUtxos

variable {hash : Kernel.ScriptHash} {steppeds : SteppedUtxos hash} {bounds : Bounds}

/-- Where the bounds of the steps agree, those of the batch are the ones that some step has. -/
lemma bounds_within (h : ∀ x ∈ steppeds.items, x.data.bounds.Within bounds) :
    steppeds.bounds.Within bounds ∧ ∀ x ∈ steppeds.items, x.data.bounds.Within steppeds.bounds := by
  have hfold : ∀ (items : List (SteppedUtxo hash)) (start : Bounds),
      (∀ x ∈ items, x.data.bounds.Within bounds) → start.Within bounds →
      let total := items.foldl (fun bounds item => bounds.intersect item.data.bounds) start
      total.Within bounds ∧ start.Within total ∧ ∀ x ∈ items, x.data.bounds.Within total := by
    intro items
    induction items with
    | nil => exact fun start _ hstart => ⟨hstart, .refl _, List.forall_mem_nil _⟩
    | cons x items ih =>
      intro start hitems hstart
      obtain ⟨hx, hitems⟩ := List.forall_mem_cons.mp hitems
      obtain ⟨hnext, hleft, hright⟩ := hstart.intersect hx
      obtain ⟨htotal, hfrom, hall⟩ := ih _ hitems hnext
      exact ⟨htotal, hleft.trans hfrom, List.forall_mem_cons.mpr ⟨hright.trans hfrom, hall⟩⟩
  obtain ⟨htotal, -, hall⟩ := hfold steppeds.items ⟨none, none⟩ h ⟨nofun, nofun⟩
  exact ⟨htotal, hall⟩

end SteppedUtxos

/-! ### A batch that is funded out of the wallet -/

section Funded

variable {crypto : Crypto} {hash : Kernel.ScriptHash} {steppeds : SteppedUtxos hash} {utxos : Utxos}
  {ledger : OutputReference → Option Kernel.Output}

/-- The channels of the batch are different outputs of what was found. -/
structure SteppedUtxos.Found (steppeds : SteppedUtxos hash) (utxos : Utxos) : Prop where
  nodup : (steppeds.items.map fun x => x.utxo.outputReference).Nodup
  found : ∀ x ∈ steppeds.items, utxos[x.utxo.outputReference]? = some x.utxo.output

lemma nodup_channelUtxos :
    ((channelUtxos hash utxos).map fun u => u.utxo.outputReference).Nodup := by
  rw [List.Nodup, List.pairwise_map, channelUtxos, List.pairwise_filterMap]
  refine (List.pairwise_map.mp (OrdMap.nodup_keys utxos)).imp fun {a b} hne u hu v hv heq => ?_
  rw [ChannelUtxo.tryFrom_eq_some hu, ChannelUtxo.tryFrom_eq_some hv] at heq
  exact hne heq

/-- What is made of some channels is a batch that was found. -/
lemma SteppedUtxos.found_ofVec {f : ChannelUtxo hash → Option (SteppedUtxo hash)}
    (hf : ∀ u x, f u = some x → x.utxo = u.utxo) :
    (ofVec ((channelUtxos hash utxos).filterMap f)).Found utxos := by
  constructor
  · have hnodup : (((channelUtxos hash utxos).filterMap f).map
        fun x => x.utxo.outputReference).Nodup := by
      rw [List.Nodup, List.pairwise_map, List.pairwise_filterMap]
      refine (List.pairwise_map.mp nodup_channelUtxos).imp fun {a b} hne x hx y hy heq => ?_
      rw [hf a x hx, hf b y hy] at heq
      exact hne heq
    exact ((List.mergeSort_perm _ _).map _).nodup_iff.mpr hnodup
  · intro x hx
    obtain ⟨u, hu, hux⟩ := List.mem_filterMap.mp (List.mem_mergeSort.mp hx)
    rw [hf u x hux]
    exact mem_channelUtxos.mp hu

/-- All that was found is on the ledger. -/
def OnLedger (ledger : OutputReference → Option Kernel.Output) (utxos : Utxos) : Prop :=
  ∀ oref output, utxos[oref]? = some output → ledger oref = some output

/-- What is taken out of the wallet is found, and is not locked by the script. -/
lemma fuelOf_of_covers (hash : Kernel.ScriptHash) {wallet : VerifyingKey} {amount : UInt64}
    {inputs : List OutputReference} (h : Fuel.Covers (fuelOf crypto wallet utxos) amount inputs) :
    ∀ oref ∈ inputs, ∃ output, utxos[oref]? = some output ∧ output.atScript hash = false := by
  intro oref horef
  obtain ⟨hmem, haddress⟩ := Std.ExtTreeMap.mem_filter.mp
    (Std.ExtTreeMap.contains_iff_mem.mp (h.contains oref horef))
  refine ⟨_, Std.ExtTreeMap.getElem?_eq_some_getElem hmem, ?_⟩
  simp [Kernel.Output.atScript, of_decide_eq_true haddress, walletAddress]

variable {params : ProtocolParameters} {reference : Option OutputReference} {opens : List Open}
  {wallet : VerifyingKey} {change : Option Change} {body : TransactionBody}

/-- The transaction can be shown: it spends no output twice. -/
lemma SteppedUtxos.exists_shown
    (hbuild : fundedTx crypto params reference steppeds opens (fuelOf crypto wallet utxos) change =
      .ok body) (hfound : steppeds.Found utxos) (hledger : OnLedger ledger utxos) :
    ∃ t redeemers, body.Shown ledger params.slotConfig t redeemers := by
  obtain ⟨inputs, hinputs, hbuild⟩ := Result.bind_eq_ok.mp hbuild
  have hbuild := Result.mapError_eq_ok.mp hbuild
  have hcovers := (Fuel.fewest_of_select (fuelInputs_eq_ok_iff.mp hinputs).2).covers
  have hfuel := fuelOf_of_covers hash hcovers
  rw [tx] at hbuild
  split_ifs at hbuild
  rw [← Except.ok.inj hbuild]
  -- what is spent of the script is no fuel
  have hinputs : (withFuel steppeds.inputs inputs).map Prod.fst =
      (steppeds.items.map fun x => x.utxo.outputReference) ++ inputs :=
    map_fst_withFuel _ _ _
  refine TransactionBody.exists_shown ?_ fun x hx => ?_
  · rw [hinputs, List.nodup_append]
    refine ⟨hfound.nodup, hcovers.nodup, ?_⟩
    rintro oref horef _ hinput rfl
    obtain ⟨x, hx, rfl⟩ := List.mem_map.mp horef
    obtain ⟨output, houtput, hoff⟩ := hfuel _ hinput
    obtain rfl := Option.some.inj ((hfound.found x hx).symm.trans houtput)
    rw [x.onChain.1] at hoff
    cases hoff
  · have hmem : x.1 ∈ (steppeds.items.map fun x => x.utxo.outputReference) ++ inputs :=
      hinputs ▸ List.mem_map_of_mem hx
    rcases List.mem_append.mp hmem with horef | hinput
    · obtain ⟨y, hy, heq⟩ := List.mem_map.mp horef
      exact ⟨_, heq ▸ hledger _ _ (hfound.found y hy)⟩
    · obtain ⟨output, houtput, -⟩ := hfuel _ hinput
      exact ⟨output, hledger _ _ houtput⟩

/-- Main accepts it just when each step is accepted, between the bounds of the batch, and the
constants of what is to continue are the channels' own. -/
lemma SteppedUtxos.funded_validates_iff
    (hbuild : fundedTx crypto params reference steppeds opens (fuelOf crypto wallet utxos) change =
      .ok body) (hfound : steppeds.Found utxos) (hledger : OnLedger ledger utxos)
    {t : Kernel.Transaction} {redeemers : OutputReference → Kernel.Redeemer}
    (hshown : body.Shown ledger params.slotConfig t redeemers) :
    t.Validates crypto hash redeemers ↔
      steppeds.Accepted crypto
        (Tx2.Interval.bounds ⟨steppeds.bounds.lower, steppeds.bounds.upper⟩ params) ∧
          steppeds.OwnConstants := by
  obtain ⟨inputs, hinputs, hbuild⟩ := Result.bind_eq_ok.mp hbuild
  have hbuild := Result.mapError_eq_ok.mp hbuild
  have hcovers := (Fuel.fewest_of_select (fuelInputs_eq_ok_iff.mp hinputs).2).covers
  have hrange : t.validityRange =
      Tx2.Interval.bounds ⟨steppeds.bounds.lower, steppeds.bounds.upper⟩ params := by
    rw [hshown.validityRange, Tx2.Interval.bounds]
    rw [tx] at hbuild
    split_ifs at hbuild
    rw [← Except.ok.inj hbuild]
    rfl
  rw [← hrange]
  refine (validates_iff hbuild (fun x hx => hledger _ _ (hfound.found x hx)) ?_ hshown).2
  intro oref horef output houtput
  obtain ⟨output', hfuel, hoff⟩ := fuelOf_of_covers hash hcovers oref horef
  obtain rfl := Option.some.inj ((hledger _ _ hfuel).symm.trans houtput)
  exact hoff

end Funded

end Konduit.Tx
