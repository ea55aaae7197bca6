import Konduit.Session.Session
import Konduit.Tx.ChannelUtxos
import Konduit.Tx2.Settling

/-!
# Staging out of a session

The channels of a session are those that it found at addresses of the script; its fuel is what the
wallet has without a script.  Where what it found is on the ledger, whatever is staged of its
channels finds its outputs again when it is built, the ledger can show the transaction, and main
accepts it just when each step is accepted on its own and none is at a pointer (`build_settles`).
-/

open Lib

namespace Konduit.Session

open Data Cardano
open Kernel (OutputReference)
open Tx (Utxos)
open Tx2 (InputMap Interval StagedTx BuildArgs)

variable {Address : Type} [Ord Address] [Std.TransOrd Address] {format : AddressFormat Address}

section Views

variable (self : Session format)

/-- The outputs of the wallet that carry no script. -/
def fuel : Utxos :=
  ((self.tip.utxosAt self.walletAddress).getD ∅).filter fun _ output =>
    output.referenceScript.isNone

/-- The first output with this script, at the first address that has one. -/
def refScript (hash : Kernel.ScriptHash) : Option (OutputReference × Kernel.Output) :=
  self.tip.utxos.toList.findSome? fun x => Tx.findReferenceScript hash x.2

/-- All outputs that were found. -/
def utxos : Utxos :=
  (self.tip.utxos.toList.flatMap fun x => x.2.toList).foldl (fun m x => m.insert x.1 x.2) ∅

/-- The outputs that are read as channels, at addresses of the script. -/
def channelEntries (hash : Kernel.ScriptHash) : List (OutputReference × Tx2.Channel) :=
  (self.tip.utxos.toList.filter fun x => format.payment x.1 = .script hash).flatMap fun x =>
    x.2.toList.filterMap fun y =>
      (Tx2.Channel.tryFrom hash y.2).toOption.map fun channel => (y.1, channel)

/-- The channels that were found, by their places. -/
def channels (hash : Kernel.ScriptHash) : InputMap Tx2.Channel :=
  (self.channelEntries hash).foldl (fun m x => m.insert x.1 x.2) ∅

/-- What a stage is built from. -/
def buildArgs (hash : Kernel.ScriptHash) (params : ProtocolParameters)
    (change : List OutputReference → Option (Option Change)) : BuildArgs where
  hash
  utxos oref := self.utxos[oref]?
  params
  reference := (self.refScript hash).map Prod.fst
  fuel := self.fuel.map fun _ output => Tx2.valueOf output
  change

/-- The transaction that a stage is built into. -/
def build {crypto : Crypto} (hash : Kernel.ScriptHash) (params : ProtocolParameters)
    (change : List OutputReference → Option (Option Change)) (staged : StagedTx crypto) :
    Except StagedTx.FundError TransactionBody :=
  (staged.buildFrom (self.buildArgs hash params change)).map Prod.fst

/-- What was found at an address is on the ledger, and at this address. -/
def TrueOf (ledger : OutputReference → Option Kernel.Output) : Prop :=
  ∀ address utxos, self.tip.utxosAt address = some utxos →
    ∀ (oref : OutputReference) output, utxos[oref]? = some output →
      ledger oref = some output ∧ output.address.paymentCredential = format.payment address

end Views

/-! ### What is found again -/

section Found

variable {self : Session format} {hash : Kernel.ScriptHash} {oref : OutputReference}
  {output : Kernel.Output} {ledger : OutputReference → Option Kernel.Output}

/-- The fuel is on the ledger, and not at the script. -/
lemma exists_of_fuel (htrue : self.TrueOf ledger)
    (hwallet : format.payment self.walletAddress ≠ .script hash) (h : oref ∈ self.fuel) :
    ∃ output, ledger oref = some output ∧ output.atScript hash = false := by
  have hin := Std.ExtTreeMap.mem_of_mem_filter h
  cases hutxos : self.tip.utxosAt self.walletAddress with
  | none => simp [hutxos] at hin
  | some utxos =>
    rw [hutxos, Option.getD_some] at hin
    have hget := Std.ExtTreeMap.getElem?_eq_some_getElem hin
    obtain ⟨hledger, haddress⟩ := htrue _ _ hutxos _ _ hget
    refine ⟨_, hledger, ?_⟩
    simp [Kernel.Output.atScript, haddress, hwallet]

variable [Std.LawfulEqOrd Address]

lemma mem_toList_tip {x : Address × Utxos} :
    x ∈ self.tip.utxos.toList ↔ self.tip.utxosAt x.1 = some x.2 := by
  rw [Tip.utxosAt, ← OrdMap.mem_toList_iff]

/-- What is among all outputs was found at some address. -/
lemma exists_of_utxos (h : self.utxos[oref]? = some output) :
    ∃ address utxos, self.tip.utxosAt address = some utxos ∧ utxos[oref]? = some output := by
  rcases OrdMap.mem_of_getElem?_foldl_insert h with hmem | hnone
  · obtain ⟨x, hx, hmem⟩ := List.mem_flatMap.mp hmem
    exact ⟨x.1, x.2, mem_toList_tip.mp hx, OrdMap.mem_toList_iff.mp hmem⟩
  · simp at hnone

/-- What is found twice is the same, as the ledger has one output there. -/
lemma getElem?_utxos (htrue : self.TrueOf ledger) {address : Address} {utxos : Utxos}
    (hutxos : self.tip.utxosAt address = some utxos) (h : utxos[oref]? = some output) :
    self.utxos[oref]? = some output := by
  have hmem : (oref, output) ∈ self.tip.utxos.toList.flatMap fun x => x.2.toList :=
    List.mem_flatMap.mpr ⟨(address, utxos), mem_toList_tip.mpr hutxos, OrdMap.mem_toList_iff.mpr h⟩
  refine OrdMap.getElem?_foldl_insert_of_same hmem fun output' hmem' => ?_
  obtain ⟨x, hx, hmem'⟩ := List.mem_flatMap.mp hmem'
  obtain ⟨hledger, -⟩ := htrue _ _ hutxos _ _ h
  obtain ⟨hledger', -⟩ := htrue _ _ (mem_toList_tip.mp hx) _ _ (OrdMap.mem_toList_iff.mp hmem')
  exact Option.some.inj (hledger'.symm.trans hledger)

lemma mem_of_foldl_insert {l : List (OutputReference × Tx2.Channel)} {channel : Tx2.Channel}
    {m : InputMap Tx2.Channel}
    (h : (l.foldl (fun m x => m.insert x.1 x.2) m)[oref]? = some channel) :
    (oref, channel) ∈ l ∨ m[oref]? = some channel := by
  induction l using List.reverseRecOn with
  | nil => exact .inr h
  | append_singleton l x ih =>
    rw [List.foldl_concat, Std.TreeMap.getElem?_insert] at h
    split_ifs at h with heq
    · obtain rfl := Std.LawfulEqCmp.eq_of_compare heq
      obtain rfl := Option.some.inj h
      exact .inl (List.mem_append_right _ List.mem_cons_self)
    · exact (ih h).imp_left (List.mem_append_left _)

/-- A channel was read off an output that was found. -/
lemma exists_of_channels {channel : Tx2.Channel} (h : (self.channels hash)[oref]? = some channel) :
    ∃ address utxos output, self.tip.utxosAt address = some utxos ∧ utxos[oref]? = some output ∧
      Tx2.Channel.tryFrom hash output = .ok channel := by
  rcases mem_of_foldl_insert h with hmem | hnone
  · obtain ⟨x, hx, hmem⟩ := List.mem_flatMap.mp hmem
    obtain ⟨⟨oref, output⟩, hfound, hmap⟩ := List.mem_filterMap.mp hmem
    obtain ⟨channel', hread, heq⟩ := Option.map_eq_some_iff.mp hmap
    obtain ⟨rfl, rfl⟩ := Prod.mk.inj heq
    exact ⟨x.1, x.2, output, mem_toList_tip.mp (List.mem_of_mem_filter hx),
      OrdMap.mem_toList_iff.mp hfound, Result.toOption_eq_some.mp hread⟩
  · simp at hnone

end Found

variable [Std.LawfulEqOrd Address]

/-- **Staging.**  Where what a session found is on the ledger, and the wallet is not at the script,
no output of what is staged of its channels is missing when it is built, whatever was done to the
stage.  The ledger can show what is built, and main accepts it just when each step is accepted on
its own and none is at a pointer. -/
theorem build_settles {session : Session format} {ledger : OutputReference → Option Kernel.Output}
    (htrue : session.TrueOf ledger) {hash : Kernel.ScriptHash}
    (hwallet : format.payment session.walletAddress ≠ .script hash) (crypto : Crypto)
    (window : Interval) (ops : List StagedTx.Op) (params : ProtocolParameters)
    (change : List OutputReference → Option (Option Change)) :
    let staged := StagedTx.after window (session.channels hash) ops crypto
    session.build hash params change staged ≠ .error (.build .missingUtxo) ∧
      ∀ body, session.build hash params change staged = .ok body →
        staged.Settles (session.buildArgs hash params change) ledger body := by
  intro staged
  have hreads : staged.Reads hash (session.buildArgs hash params change).utxos := by
    intro input channel hchannel
    rw [(StagedTx.after_read window (session.channels hash) ops).2] at hchannel
    obtain ⟨address, utxos, output, hutxos, houtput, hread⟩ := exists_of_channels hchannel
    exact ⟨output, getElem?_utxos htrue hutxos houtput, hread⟩
  have hknown : ∀ oref output, (session.buildArgs hash params change).utxos oref = some output →
      ledger oref = some output := by
    intro oref output houtput
    obtain ⟨address, utxos, hutxos, houtput⟩ := exists_of_utxos houtput
    exact (htrue _ _ hutxos _ _ houtput).1
  have hfuel : ∀ oref ∈ (session.buildArgs hash params change).fuel,
      ∃ output, ledger oref = some output ∧ output.atScript hash = false := by
    intro oref horef
    exact exists_of_fuel htrue hwallet (Std.ExtTreeMap.mem_map.mp horef)
  refine ⟨fun herror => ?_, fun body hbuild => ?_⟩
  · rw [build] at herror
    cases hresult : staged.buildFrom (session.buildArgs hash params change) with
    | error e =>
      rw [hresult] at herror
      obtain rfl := Except.error.inj herror
      exact StagedTx.buildFrom_ne_missingUtxo hreads hresult
    | ok built =>
      rw [hresult] at herror
      cases herror
  · rw [build] at hbuild
    cases hresult : staged.buildFrom (session.buildArgs hash params change) with
    | error e =>
      rw [hresult] at hbuild
      cases hbuild
    | ok built =>
      rw [hresult] at hbuild
      obtain rfl := Except.ok.inj hbuild
      exact StagedTx.settles_of_buildFrom hresult hreads hknown hfuel

/-! ### A channel of a session -/

namespace Sample

/-- The place of the script. -/
def scriptRef : OutputReference := ⟨List.replicate 32 0, 2⟩

/-- An output of the wallet that carries the script. -/
def scriptInput : Kernel.Output :=
  ⟨⟨.verificationKey (List.replicate 28 1), none⟩, 2_000_000, [], .noDatum, some Tx2.Sample.hash⟩

/-- The wallet has 9 ada and the script; a channel with 1 ada was found at the script. -/
def session : Session (textFormat Tx2.Sample.hash) where
  walletAddress := "addr1"
  tip := ⟨((∅ : OrdMap String Utxos).insert "addr1" (((∅ : Utxos).insert Tx2.Sample.fuelRef
    Tx2.Sample.fuelInput).insert scriptRef scriptInput)).insert "konduit1"
      ((∅ : Utxos).insert Tx2.Sample.batchRef (Tx2.Sample.batchInput none))⟩
  addressbook := Addressbook.empty

/-- The outputs that the session found. -/
def ledger (oref : OutputReference) : Option Kernel.Output :=
  if oref = scriptRef then some scriptInput else Tx2.Sample.batchUtxos none oref

lemma utxosAt_session {address : String} {utxos : Utxos}
    (h : session.tip.utxosAt address = some utxos) :
    address = "konduit1" ∧
        utxos = (∅ : Utxos).insert Tx2.Sample.batchRef (Tx2.Sample.batchInput none) ∨
      address = "addr1" ∧ utxos = ((∅ : Utxos).insert Tx2.Sample.fuelRef
        Tx2.Sample.fuelInput).insert scriptRef scriptInput := by
  rw [Tip.utxosAt, session, Std.ExtTreeMap.getElem?_insert, Std.ExtTreeMap.getElem?_insert] at h
  split_ifs at h with hscript hwallet
  · exact .inl ⟨(Std.LawfulEqCmp.eq_of_compare hscript).symm, (Option.some.inj h).symm⟩
  · exact .inr ⟨(Std.LawfulEqCmp.eq_of_compare hwallet).symm, (Option.some.inj h).symm⟩
  · simp at h

lemma mem_of_insert {utxos : Utxos} {oref oref' : OutputReference} {output output' : Kernel.Output}
    (h : (utxos.insert oref output)[oref']? = some output') :
    oref' = oref ∧ output' = output ∨ utxos[oref']? = some output' := by
  rw [Std.ExtTreeMap.getElem?_insert] at h
  split_ifs at h with heq
  · exact .inl ⟨(Std.LawfulEqCmp.eq_of_compare heq).symm, (Option.some.inj h).symm⟩
  · exact .inr h

lemma trueOf_session : session.TrueOf ledger := by
  intro address utxos hutxos oref output houtput
  rcases utxosAt_session hutxos with ⟨rfl, rfl⟩ | ⟨rfl, rfl⟩
  · rcases mem_of_insert houtput with ⟨rfl, rfl⟩ | hnone
    · exact ⟨rfl, rfl⟩
    · simp at hnone
  · rcases mem_of_insert houtput with ⟨rfl, rfl⟩ | hfuel
    · exact ⟨rfl, rfl⟩
    · rcases mem_of_insert hfuel with ⟨rfl, rfl⟩ | hnone
      · exact ⟨rfl, rfl⟩
      · simp at hnone

/-- The channel is to be added 5 ada to. -/
def staged : StagedTx .noCrypto :=
  StagedTx.after ⟨none, none⟩ (session.channels Tx2.Sample.hash)
    [.want Tx2.Sample.batchRef (.add 5_000_000)] .noCrypto

lemma exists_body : ∃ body,
    session.build Tx2.Sample.hash Tx2.Sample.preprod (fun _ => some none) staged = .ok body :=
  Result.exists_eq_ok (by decide +kernel)

end Sample

/-- What is built for the channel settles. -/
theorem build_settles_of_added : ∃ body,
    Sample.session.build Tx2.Sample.hash Tx2.Sample.preprod (fun _ => some none) Sample.staged =
        .ok body ∧
      Sample.staged.Settles (Sample.session.buildArgs Tx2.Sample.hash Tx2.Sample.preprod
        fun _ => some none) Sample.ledger body := by
  obtain ⟨body, hbody⟩ := Sample.exists_body
  exact ⟨body, hbody,
    (build_settles Sample.trueOf_session (by decide) .noCrypto _ _ _ _).2 body hbody⟩

end Konduit.Session
