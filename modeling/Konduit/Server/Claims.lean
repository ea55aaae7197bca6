import Konduit.Tx.Adaptor

/-!
# What the server claims

The server claims with the receipts that it reads from its table, of the channels that it finds on
chain, up to twenty minutes from now.  Whatever requests have made the table, what is claimed can be
put on the ledger, and main accepts it just when each claim holds (`claim_settles`).
-/

open Lib

namespace Konduit.Tx

open Data

/-- A minute before now, and nineteen minutes from then on. -/
def Bounds.twentyMins (now : UInt64) : Bounds :=
  let lower := Word.satSub now 60
  ⟨some (.fromSecs lower), some (.fromSecs (lower + 19 * 60))⟩

end Konduit.Tx

namespace Konduit.Server

open Data Tmp Tx Cardano
open Kernel (OutputReference)

/-- A receipt of an entry, if it has one; nothing where the entry cannot be read, and the thread
panics. -/
def Table.receiptOf (table : Table) (keytag : Keytag) : Option (Option (Keytag × Receipt)) :=
  match table.store.get keytag with
  | .ok channel => some (channel.receipt.map fun receipt => (keytag, receipt))
  | .error .corrupt => none
  | .error _ => some none

/-- The receipts of the table. -/
def Table.receipts (table : Table) : Option (OrdMap Keytag Receipt) := do
  let receipts ← table.keys.mapM table.receiptOf
  return (receipts.filterMap id).foldl (fun m x => m.insert x.1 x.2) ∅

/-- What the server claims with. -/
structure Service where
  params : ProtocolParameters
  preferences : AdaptorPreferences
  scriptUtxo : OutputReference × Kernel.Output
  wallet : VerifyingKey

namespace Service

/-- The script, the channels and the wallet. -/
def tip (self : Service) (snapshot walletUtxos : Utxos) : Utxos :=
  ((self.scriptUtxo :: snapshot.toList) ++ walletUtxos.toList).foldl
    (fun m x => m.insert x.1 x.2) ∅

/-- The transaction that claims what the receipts are worth on chain. -/
def claim (self : Service) (crypto : Crypto) (hash : Kernel.ScriptHash) (table : Table)
    (snapshot walletUtxos : Utxos) (now : UInt64) (change : Option Change) :
    Option (Except Adaptor.TxError TransactionBody) := do
  let receipts ← table.receipts
  let upper ← (Bounds.twentyMins now).upper
  return Adaptor.tx crypto self.params hash self.preferences self.wallet receipts
    (self.tip snapshot walletUtxos) upper change

end Service

/-! ### The receipts that are read -/

section Receipts

variable {table : Table} {receipts : OrdMap Keytag Receipt} {keytag : Keytag} {receipt : Receipt}

lemma join_receiptOf {x : Keytag × Receipt} :
    (table.receiptOf keytag).join = some x ↔ x.1 = keytag ∧
      ∃ entry, table.store.get keytag = .ok entry ∧ entry.receipt = some x.2 := by
  obtain ⟨key, receipt⟩ := x
  rw [Table.receiptOf]
  cases hget : table.store.get keytag with
  | error e => cases e <;> simp
  | ok entry => simp [and_comm, eq_comm]

/-- Those that are found are those of the entries. -/
lemma getElem?_receipts (h : table.receipts = some receipts) :
    receipts[keytag]? = some receipt ↔
      ∃ entry, table.store.get keytag = .ok entry ∧ entry.receipt = some receipt := by
  simp only [Table.receipts, Option.bind_eq_bind, Option.bind_eq_some_iff, Option.pure_def,
    Option.some.injEq] at h
  obtain ⟨l, hl, rfl⟩ := h
  rw [Result.filterMap_of_mapM hl]
  have hmem : ∀ {x : Keytag × Receipt},
      x ∈ table.keys.filterMap (fun k => (table.receiptOf k).join) ↔
        ∃ entry, table.store.get x.1 = .ok entry ∧ entry.receipt = some x.2 := by
    intro x
    simp only [List.mem_filterMap, join_receiptOf]
    constructor
    · rintro ⟨k, -, rfl, hentry⟩
      exact hentry
    · rintro ⟨entry, hget, hreceipt⟩
      obtain ⟨bytes, -, hbytes, -⟩ := Store.get_eq_ok.mp hget
      refine ⟨x.1, List.mem_map.mpr ⟨(x.1, bytes), OrdMap.mem_toList_iff.mpr hbytes, rfl⟩, rfl,
        entry, hget, hreceipt⟩
  have hnodup : ((table.keys.filterMap fun k => (table.receiptOf k).join).map Prod.fst).Nodup := by
    rw [List.Nodup, List.pairwise_map, List.pairwise_filterMap]
    refine List.Pairwise.imp (fun {a b} hne x hx y hy heq => ?_) (OrdMap.nodup_keys table)
    rw [(join_receiptOf.mp hx).1, (join_receiptOf.mp hy).1] at heq
    exact hne heq
  constructor
  · intro hget
    rcases OrdMap.mem_of_getElem?_foldl_insert hget with hin | hnone
    · exact hmem.mp hin
    · simp at hnone
  · intro hentry
    exact OrdMap.getElem?_foldl_insert hnodup (hmem.mpr hentry)

end Receipts

/-! ### What becomes of a claim -/

/-- The channel is found on chain, is the server's, and is claimed with the receipt of its entry,
with enough gain. -/
structure Claimed (service : Service) (crypto : Crypto) {hash : Kernel.ScriptHash} (table : Table)
    (utxos : Utxos) (upper : Duration) (x : SteppedUtxo hash) (receipt : Receipt) : Prop where
  found : utxos[x.utxo.outputReference]? = some x.utxo.output
  own : x.data.channel.constants.subVkey = service.wallet
  entry : ∃ entry, table.store.get (keytagOf x.data.channel) = .ok entry ∧
    entry.receipt = some receipt
  step : x.data.channel.anySub crypto receipt upper = .ok x.data
  gains : service.preferences.minSingle.toInt64 ≤ x.gain

/-- The transaction can be put on the ledger, and main accepts it just when each claim holds. -/
structure ClaimSettles (service : Service) (crypto : Crypto) (hash : Kernel.ScriptHash)
    (table : Table) (utxos : Utxos) (upper : Duration) (body : TransactionBody)
    (ledger : OutputReference → Option Kernel.Output) : Prop where
  shown : ∃ t redeemers, body.Shown ledger service.params.slotConfig t redeemers
  validates_iff : ∀ t redeemers, body.Shown ledger service.params.slotConfig t redeemers →
    (t.Validates crypto hash redeemers ↔ ∀ (x : SteppedUtxo hash) receipt,
      Claimed service crypto table utxos upper x receipt →
        ClaimHolds x.utxo.output.lovelace x.data.channel.stage receipt upper)

/-- In whole seconds, as long as these fit in milliseconds. -/
lemma canonical_fromSecs {secs : UInt64} (h : 1000 * secs.toNat < 2 ^ 64) :
    (Duration.fromSecs secs).Canonical := by
  have hthousand : (1000 * secs).toNat = 1000 * secs.toNat :=
    (UInt64.toNat_mul _ _).trans (Nat.mod_eq_of_lt h)
  have hmillis : Duration.fromSecs secs = .fromMillis (1000 * secs) := by
    refine Duration.ext ?_
    change secs.toNat * 10 ^ 9 = (1000 * secs).toNat * 10 ^ 6
    rw [hthousand]
    ring
  rw [hmillis]
  exact Duration.canonical_fromMillis _

section Settles

variable {service : Service} {crypto : Crypto} {hash : Kernel.ScriptHash} {table : Table}
  {snapshot walletUtxos : Utxos} {now : UInt64} {change : Option Change} {body : TransactionBody}
  {parseInvoice : PayBody.ParseInvoice} {store : Store} {ts : List Transition}
  {ledger : OutputReference → Option Kernel.Output}

lemma claim_eq_ok {upper : Duration} (hupper : (Bounds.twentyMins now).upper = some upper)
    (h : service.claim crypto hash table snapshot walletUtxos now change = some (.ok body)) :
    ∃ receipts, table.receipts = some receipts ∧
      Adaptor.tx crypto service.params hash service.preferences service.wallet receipts
        (service.tip snapshot walletUtxos) upper change = .ok body := by
  simp only [Service.claim, hupper, Option.bind_eq_bind, Option.bind_some,
    Option.bind_eq_some_iff, Option.pure_def, Option.some.injEq] at h
  exact h

/-- **Claims.**  After any run of the server from a fresh store, with requests in any order of
which none brings the greatest word as an index: what the server claims, of channels with datums of
their own whose useds are in order, can be put on the ledger, and main accepts it just when each
claim holds. -/
theorem claim_settles (hrun : Run crypto parseInvoice store ts table.store)
    (hfresh : store.Fresh) (hindexed : ∀ t ∈ ts, t.call.request.Indexed parseInvoice)
    (hnow : 1000 * (now.toNat + 19 * 60) < 2 ^ 64) {upper : Duration}
    (hupper : (Bounds.twentyMins now).upper = some upper)
    (hclaim : service.claim crypto hash table snapshot walletUtxos now change = some (.ok body))
    (hown : ∀ (x : SteppedUtxo hash) receipt,
      Claimed service crypto table (service.tip snapshot walletUtxos) upper x receipt →
        x.data.channel.Own x.utxo.output ∧
          x.data.channel.stage.useds.Pairwise (·.index < ·.index))
    (hledger : OnLedger ledger (service.tip snapshot walletUtxos)) :
    ClaimSettles service crypto hash table (service.tip snapshot walletUtxos) upper body
      ledger := by
  obtain ⟨receipts, hreceipts, hbuild⟩ := claim_eq_ok hupper hclaim
  have hevident : ∀ keytag receipt, receipts[keytag]? = some receipt →
      Evident crypto keytag receipt := by
    intro keytag receipt hreceipt
    obtain ⟨entry, hget, hentry⟩ := (getElem?_receipts hreceipts).mp hreceipt
    obtain ⟨bytes, old, hbytes, hread, rfl⟩ := Store.get_eq_ok.mp hget
    obtain ⟨value, rfl, hkept⟩ := all_witnessed hrun hfresh hindexed keytag bytes hbytes
    exact evident_of_fromBytes hkept hread receipt hentry
  have hcanonical : upper.Canonical := by
    obtain rfl := Option.some.inj hupper
    refine canonical_fromSecs ?_
    have hlower := Word.toNat_satSub now 60
    have hperiod : (19 * 60 : UInt64).toNat = 19 * 60 := rfl
    rw [UInt64.toNat_add, hlower, hperiod]
    omega
  have hclaimed : ∀ {x : SteppedUtxo hash}, x ∈ (Adaptor.steppeds crypto hash service.preferences
      service.wallet receipts (service.tip snapshot walletUtxos) upper).items → ∃ receipt,
      Claimed service crypto table (service.tip snapshot walletUtxos) upper x receipt := by
    intro x hx
    obtain ⟨hfound, hown, ⟨receipt, hreceipt, hstep⟩, hgains⟩ := Adaptor.mem_steppeds.mp hx
    exact ⟨receipt, hfound, hown, (getElem?_receipts hreceipts).mp hreceipt, hstep, hgains⟩
  refine ⟨SteppedUtxos.exists_shown (Adaptor.tx_eq_ok hbuild) Adaptor.found_steppeds hledger,
    fun t redeemers hshown => ?_⟩
  rw [Adaptor.validates_iff hbuild hevident (fun x hx => (hown x _ (hclaimed hx).choose_spec).2)
    (fun x hx => (hown x _ (hclaimed hx).choose_spec).1) hcanonical hledger hshown]
  constructor
  · intro hholds x receipt hclaimed
    have hreceipt := (getElem?_receipts hreceipts).mpr hclaimed.entry
    exact hholds x (Adaptor.mem_steppeds.mpr ⟨hclaimed.found, hclaimed.own,
      ⟨receipt, hreceipt, hclaimed.step⟩, hclaimed.gains⟩) receipt hreceipt
  · intro hholds x hx receipt hreceipt
    obtain ⟨hfound, hown, ⟨receipt', hreceipt', hstep⟩, hgains⟩ := Adaptor.mem_steppeds.mp hx
    obtain rfl := Option.some.inj (hreceipt.symm.trans hreceipt')
    exact hholds x receipt ⟨hfound, hown, (getElem?_receipts hreceipts).mp hreceipt, hstep, hgains⟩

end Settles

/-! ### A closed channel -/

namespace Sample

/-- The receipt of the null squash. -/
def receipt : Receipt := .new (nullSquash.withState .verified)

/-- The entry of the channel, after the null squash. -/
def table : Table := (∅ : Table).insert keytag (value (some receipt)).encode

/-- A service with its script and its wallet. -/
def service : Service where
  params := Tx2.Sample.preprod
  preferences := ⟨0, 0⟩
  scriptUtxo := (⟨List.replicate 32 0, 2⟩,
    ⟨⟨.verificationKey (List.replicate 28 1), none⟩, 2_000_000, [], .noDatum, some Tx2.Sample.hash⟩)
  wallet := ⟨BytesN.fill 32 0⟩

/-- A closed channel with one used. -/
def snapshot : Utxos := (∅ : Utxos).insert ⟨List.replicate 32 0, 0⟩ Tx2.Sample.closed

/-- The wallet has 9 ada. -/
def walletUtxos : Utxos := (∅ : Utxos).insert ⟨List.replicate 32 0, 1⟩
  ⟨walletAddress .noCrypto service.wallet, 9_000_000, [], .noDatum, none⟩

/-- All that the service sees. -/
def tip : Utxos := service.tip snapshot walletUtxos

lemma store_table : table.store = store (some receipt) := by
  funext k
  change table[k]? = _
  rw [table, store]
  rcases eq_or_ne keytag k with rfl | hne
  · rw [Std.ExtTreeMap.getElem?_insert_self, Function.update_self]
  · rw [OrdMap.getElem?_insert_of_ne hne, Function.update_of_ne (Ne.symm hne),
      Std.ExtTreeMap.getElem?_empty]

lemma get_table : table.store.get keytag = .ok ((value (some receipt)).toChannel keytag) := by
  rw [store_table]
  refine Store.get_update ⟨?_, ?_⟩ (by simp [Value.Short, value, receipt, Receipt.new])
  · rintro r hr
    obtain rfl := Option.some.inj hr
    exact SquashBody.wellFormed_zero
  · rintro r hr
    obtain rfl := Option.some.inj hr
    exact List.forall_mem_nil _

lemma receipts_table :
    table.receipts = some ((∅ : OrdMap Keytag Receipt).insert keytag receipt) := by
  have hkeys : table.keys = [keytag] := by decide +kernel
  have hreceipt : table.receiptOf keytag = some (some (keytag, receipt)) := by
    rw [Table.receiptOf, get_table]
    rfl
  rw [Table.receipts, hkeys, List.mapM_cons, hreceipt]
  rfl

lemma exists_claim :
    ∃ body, service.claim .noCrypto Tx2.Sample.hash table snapshot walletUtxos 1000 none =
      some (.ok body) := by
  have hbuilt : (Adaptor.tx .noCrypto service.params Tx2.Sample.hash service.preferences
      service.wallet ((∅ : OrdMap Keytag Receipt).insert keytag receipt) tip (.fromSecs 2080)
        none).isOk = true := by
    decide +kernel
  obtain ⟨body, hbody⟩ := Result.exists_eq_ok hbuilt
  refine ⟨body, ?_⟩
  rw [Service.claim, receipts_table]
  exact congrArg some hbody

lemma own_tip : ∀ u ∈ channelUtxos Tx2.Sample.hash tip,
    u.utxo.output.channel =
        some ⟨Tx2.Sample.hash, u.data.constants.toKernel, u.data.stage.toKernel⟩ ∧
      u.data.stage.useds.Pairwise (·.index < ·.index) := by
  decide +kernel

end Sample

/-- After the null squash, of a closed channel with one used. -/
theorem claim_settles_of_closed : ∃ body,
    Sample.service.claim .noCrypto Tx2.Sample.hash Sample.table Sample.snapshot Sample.walletUtxos
        1000 none = some (.ok body) ∧
      ClaimSettles Sample.service .noCrypto Tx2.Sample.hash Sample.table Sample.tip
        (.fromSecs 2080) body fun oref => Sample.tip[oref]? := by
  obtain ⟨body, hbody⟩ := Sample.exists_claim
  have hrun : Run .noCrypto (fun _ => none) (Sample.store none) _ Sample.table.store :=
    Sample.store_table ▸ Sample.run_squash (fun _ => none) Sample.nullSquash
  have hupper : (Bounds.twentyMins 1000).upper = some (.fromSecs 2080) :=
    congrArg (fun secs => some (Duration.fromSecs secs)) (by decide)
  refine ⟨body, hbody, claim_settles hrun Sample.store_fresh ?_ (by decide) hupper hbody
    (fun x receipt hclaimed => ?_) fun _ _ h => h⟩
  · rintro t ht
    obtain rfl := List.mem_singleton.mp ht
    rintro squash hsquash
    obtain rfl := Option.some.inj (hsquash.symm.trans Sample.nullSquash.ofJson_toJson)
    show (0 : UInt64) ≠ Word.maxValue
    decide
  · obtain ⟨honChain, hsorted⟩ :=
      Sample.own_tip ⟨x.utxo, x.data.channel, x.read⟩ (mem_channelUtxos.mpr hclaimed.found)
    exact ⟨⟨_, honChain⟩, hsorted⟩

end Konduit.Server
