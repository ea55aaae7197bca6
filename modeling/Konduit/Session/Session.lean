import Konduit.Session.Addressbook
import Konduit.Tx.Fuel

/-!
# Sessions

A session keeps the outputs at the addresses that it tracks, as they were last fetched, beside an
addressbook with their labels.  In every run, with whatever the wallet and the chain answer and
however much of it fails, the wallet's own address is tracked and has a label, and what is kept at
an address was fetched there or loaded (`session_kept`).
-/

open Lib

namespace Konduit.Session

open Kernel (OutputReference)
open Tx (Utxos)

/-! ### The tip -/

/-- The outputs at addresses, as they were last fetched. -/
structure Tip (Address : Type) [Ord Address] where
  utxos : OrdMap Address Utxos

variable {Address : Type} [Ord Address] [Std.TransOrd Address]

namespace Tip

/-- The tip at which nothing is tracked. -/
def empty : Tip Address := ⟨∅⟩

variable (self : Tip Address)

/-- What was last found at an address, where it is tracked. -/
def utxosAt (address : Address) : Option Utxos := self.utxos[address]?

/-- The tracked addresses. -/
def addresses : List Address := self.utxos.toList.map Prod.fst

/-- The address is tracked. -/
def isTracked (address : Address) : Bool := self.utxos.contains address

/-- Watch an address, of which nothing is known unless it is tracked. -/
def track (address : Address) : Tip Address := ⟨self.utxos.insertIfNew address ∅⟩

/-- Track an address, with what was found there. -/
def refresh (address : Address) (utxos : Utxos) : Tip Address := ⟨self.utxos.insert address utxos⟩

/-- Track addresses, with what was found at each. -/
def refreshMany (snapshots : List (Address × Utxos)) : Tip Address :=
  ⟨snapshots.foldl (fun utxos x => utxos.insert x.1 x.2) self.utxos⟩

/-- Keep nothing of an address. -/
def untrack (address : Address) : Tip Address := ⟨self.utxos.erase address⟩

section Effects

variable {tip : Tip Address} {address address' : Address} {utxos utxos' : Utxos}

lemma utxosAt_track (h : (tip.track address).utxosAt address' = some utxos) :
    tip.utxosAt address' = some utxos ∨ utxos = ∅ := by
  rw [utxosAt, track, Std.ExtTreeMap.getElem?_insertIfNew] at h
  split_ifs at h
  · exact .inr (Option.some.inj h).symm
  · exact .inl h

lemma isTracked_track_self : (tip.track address).isTracked address = true := by
  simp [isTracked, track]

lemma isTracked_track (h : tip.isTracked address' = true) :
    (tip.track address).isTracked address' = true := by
  rw [isTracked] at h ⊢
  simp [track, h]

lemma utxosAt_refresh [Std.LawfulEqOrd Address]
    (h : (tip.refresh address utxos).utxosAt address' = some utxos') :
    tip.utxosAt address' = some utxos' ∨ address' = address ∧ utxos' = utxos := by
  rw [utxosAt, refresh, Std.ExtTreeMap.getElem?_insert] at h
  split_ifs at h with heq
  · exact .inr ⟨(Std.LawfulEqCmp.eq_of_compare heq).symm, (Option.some.inj h).symm⟩
  · exact .inl h

lemma isTracked_refresh (h : tip.isTracked address' = true) :
    (tip.refresh address utxos).isTracked address' = true := by
  rw [isTracked] at h ⊢
  simp [refresh, h]

lemma utxosAt_refreshMany [Std.LawfulEqOrd Address] {snapshots : List (Address × Utxos)}
    (h : (tip.refreshMany snapshots).utxosAt address = some utxos) :
    tip.utxosAt address = some utxos ∨ (address, utxos) ∈ snapshots :=
  (OrdMap.mem_of_getElem?_foldl_insert h).symm

lemma isTracked_refreshMany {snapshots : List (Address × Utxos)}
    (h : tip.isTracked address = true) : (tip.refreshMany snapshots).isTracked address = true := by
  rw [isTracked, refreshMany]
  induction snapshots generalizing tip with
  | nil => exact h
  | cons x snapshots ih => exact ih (isTracked_refresh h)

lemma utxosAt_untrack [Std.LawfulEqOrd Address]
    (h : (tip.untrack address).utxosAt address' = some utxos) :
    tip.utxosAt address' = some utxos := by
  rw [utxosAt, untrack, Std.ExtTreeMap.getElem?_erase] at h
  split_ifs at h
  exact h

lemma isTracked_untrack [Std.LawfulEqOrd Address] (h : tip.isTracked address' = true)
    (hne : address ≠ address') : (tip.untrack address).isTracked address' = true := by
  rw [isTracked] at h ⊢
  have hcompare : compare address address' ≠ .eq := fun heq =>
    hne (Std.LawfulEqCmp.eq_of_compare heq)
  simp [untrack, h, hcompare]

end Effects

end Tip

/-! ### What a session does -/

/-- Why an operation of a session fails. -/
inductive SessionError where
  | connector (e : String)
  | wallet (e : String)
  | timeout
  | addressbook (e : AddressbookError)
  | protectedAddress
deriving DecidableEq

/-- What the wallet and the chain answer to the calls of an operation, one after another. -/
structure Answers where
  wallet : ℕ → Except String (Option Utxos)
  utxosAt : ℕ → Kernel.Credential → Option Kernel.Credential → Except String Utxos

/-- The label of the wallet's own address. -/
def walletLabel : String := "wallet"

end Konduit.Session

namespace Konduit

open Session
open Kernel (OutputReference)
open Tx (Utxos)

variable {Address : Type} [Ord Address]

/-- A wallet's address, what was found, and the labels of addresses. -/
structure Session (format : AddressFormat Address) where
  walletAddress : Address
  tip : Tip Address
  addressbook : Addressbook format

namespace Session

variable {format : AddressFormat Address}

variable (self : Session format)

/-- What fails leaves the session as it is. -/
def orKeep : Except SessionError (Session format) → Except SessionError Unit × Session format
  | .error e => (.error e, self)
  | .ok session => (.ok (), session)

lemma eq_of_orKeep {self next : Session format}
    {result : Except SessionError (Session format)} {e : SessionError}
    (h : self.orKeep result = (.error e, next)) : next = self := by
  cases result with
  | error e' => exact (congrArg Prod.snd h).symm
  | ok session => cases congrArg Prod.fst h

variable [DecidableEq Address]

/-- The wallet answers for its own address. -/
def fetchAt (answers : Answers) (n : ℕ) (address : Address) : Except SessionError Utxos :=
  if address = self.walletAddress then
    ((answers.wallet n).mapError .wallet).map fun utxos => utxos.getD ∅
  else
    (answers.utxosAt n (format.payment address) (format.delegation address)).mapError .connector

/-- Fetch at one address after another, from a call on. -/
def fetchMany (answers : Answers) : ℕ → List Address → Except SessionError (List (Address × Utxos))
  | _, [] => .ok []
  | n, address :: addresses => do
    let utxos ← self.fetchAt answers n address
    let snapshots ← fetchMany answers (n + 1) addresses
    return (address, utxos) :: snapshots

section Fetch

variable {self next : Session format} {answers : Answers} {address : Address} {n : ℕ}

/-- Only the wallet's own address tells sessions apart. -/
lemma fetchAt_congr (h : next.walletAddress = self.walletAddress) :
    next.fetchAt answers n address = self.fetchAt answers n address := by
  rw [fetchAt, fetchAt, h]

/-- What is fetched at some addresses is fetched at each of them. -/
lemma mem_fetchMany {addresses : List Address} {snapshots : List (Address × Utxos)}
    (h : self.fetchMany answers n addresses = .ok snapshots) :
    ∀ x ∈ snapshots, ∃ m, self.fetchAt answers m x.1 = .ok x.2 := by
  induction addresses generalizing n snapshots with
  | nil =>
    obtain rfl := Except.ok.inj h
    exact List.forall_mem_nil _
  | cons address addresses ih =>
    simp only [fetchMany, Result.bind_eq_ok] at h
    obtain ⟨utxos, hfetch, rest, hrest, h⟩ := h
    obtain rfl := Except.ok.inj h
    exact List.forall_mem_cons.mpr ⟨⟨n, hfetch⟩, ih hrest⟩

end Fetch

variable [Std.TransOrd Address]

/-- A session of a wallet, which tracks and labels its own address. -/
def new (format : AddressFormat Address) (walletAddress : Address) :
    Except SessionError (Session format) := do
  let addressbook ← (Addressbook.empty.insert walletLabel walletAddress).mapError .addressbook
  return ⟨walletAddress, Tip.empty.track walletAddress, addressbook⟩

variable (self : Session format)

/-- Take over a tip, with the wallet's own address tracked. -/
def loadTip (tip : Tip Address) : Session format :=
  { self with tip := tip.track self.walletAddress }

/-- The wallet's own address gets its label back, if it has none. -/
def loadAddressbook (addressbook : Addressbook format) : Except SessionError (Session format) :=
  match addressbook.getLabel self.walletAddress with
  | some _ => .ok { self with addressbook }
  | none => do
    let addressbook ← (addressbook.insert walletLabel self.walletAddress).mapError .addressbook
    return { self with addressbook }

/-- Ask again what there is at an address. -/
def refreshAt (answers : Answers) (n : ℕ) (address : Address) :
    Except SessionError (Session format) := do
  let utxos ← self.fetchAt answers n address
  return { self with tip := self.tip.refresh address utxos }

/-- The address that is meant, by a label or by its text. -/
def resolve (input : String) : Except SessionError Address :=
  (self.addressbook.resolve input).mapError .addressbook

/-- Ask again what there is at the address that is meant. -/
def refresh (answers : Answers) (input : String) : Except SessionError (Session format) := do
  let address ← self.resolve input
  self.refreshAt answers 0 address

/-- Nothing is kept unless all is fetched. -/
def refreshMany (answers : Answers) (n : ℕ) (addresses : List Address) :
    Except SessionError (Session format) := do
  let snapshots ← self.fetchMany answers n addresses
  return { self with tip := self.tip.refreshMany snapshots }

/-- The wallet's own address comes first. -/
def refreshAll (answers : Answers) : Except SessionError Unit × Session format :=
  match self.refreshAt answers 0 self.walletAddress with
  | .error e => (.error e, self)
  | .ok session =>
    let addresses := session.tip.addresses.filter fun address => address ≠ session.walletAddress
    match session.refreshMany answers 1 addresses with
    | .error e => (.error e, session)
    | .ok session' => (.ok (), session')

/-- Label an address and track it. -/
def track (label : String) (address : Address) : Except SessionError (Session format) :=
  match self.addressbook.insert label address with
  | .ok addressbook => .ok { self with addressbook, tip := self.tip.track address }
  | .error .alreadyExists => .ok { self with tip := self.tip.track address }
  | .error e => .error (.addressbook e)

/-- Drop an address and its label, unless it is the wallet's own. -/
def forget (address : Address) : Except SessionError (Session format) :=
  if address = self.walletAddress then .error .protectedAddress
  else
    .ok { self with
      addressbook := (self.addressbook.removeByAddress address).2
      tip := self.tip.untrack address }

/-- Drop the address that is meant. -/
def untrack (label : String) : Except SessionError (Session format) := do
  let address ← self.resolve label
  self.forget address

/-- Fetch until there is an output of the transaction, at most so many times. -/
def waitFor (answers : Answers) (address : Address) (id : Bytes) :
    ℕ → ℕ → Except SessionError (Session format)
  | 0, _ => .error .timeout
  | attempts + 1, n => do
    let utxos ← self.fetchAt answers n address
    if utxos.toList.any fun x => x.1.transactionId = id then
      return { self with tip := self.tip.refresh address utxos }
    else waitFor answers address id attempts (n + 1)

/-- What is done to a session. -/
inductive Op (format : AddressFormat Address) where
  | loadTip (tip : Tip Address)
  | loadAddressbook (addressbook : Addressbook format)
  | refreshAt (address : Address)
  | refresh (input : String)
  | refreshMany (addresses : List Address)
  | refreshAll
  | track (label : String) (address : Address)
  | forget (address : Address)
  | untrack (label : String)
  | waitFor (address : Address) (id : Bytes) (attempts : ℕ)

/-- What an operation answers, and the session after it. -/
def apply (answers : Answers) : Op format → Except SessionError Unit × Session format
  | .loadTip tip => (.ok (), self.loadTip tip)
  | .loadAddressbook addressbook => self.orKeep (self.loadAddressbook addressbook)
  | .refreshAt address => self.orKeep (self.refreshAt answers 0 address)
  | .refresh input => self.orKeep (self.refresh answers input)
  | .refreshMany addresses => self.orKeep (self.refreshMany answers 0 addresses)
  | .refreshAll => self.refreshAll answers
  | .track label address => self.orKeep (self.track label address)
  | .forget address => self.orKeep (self.forget address)
  | .untrack label => self.orKeep (self.untrack label)
  | .waitFor address id attempts => self.orKeep (self.waitFor answers address id attempts 0)

/-- The session after these operations. -/
def after (ops : List (Answers × Op format)) : Session format :=
  ops.foldl (fun session x => (session.apply x.1 x.2).2) self

/-! ### What an operation does -/

/-- The wallet stays, and it keeps its place in either store; what is kept at an address was there,
is nothing, was fetched there or loaded. -/
structure Changed (answers : Answers) (op : Op format) (session next : Session format) : Prop where
  wallet_eq : next.walletAddress = session.walletAddress
  tracked : session.tip.isTracked session.walletAddress = true →
    next.tip.isTracked session.walletAddress = true
  labelled : (∃ label, session.addressbook.get label = some session.walletAddress) →
    ∃ label, next.addressbook.get label = some session.walletAddress
  cached : ∀ address utxos, next.tip.utxosAt address = some utxos →
    session.tip.utxosAt address = some utxos ∨ utxos = ∅ ∨
      (∃ n, session.fetchAt answers n address = .ok utxos) ∨
        ∃ tip, op = .loadTip tip ∧ tip.utxosAt address = some utxos

section Steps

variable {self : Session format} {next : Session format} {answers : Answers} {op : Op format}
  {address : Address} {utxos : Utxos} {n : ℕ}

lemma Changed.refl : Changed answers op self self := ⟨rfl, id, id, fun _ _ h => .inl h⟩

lemma Changed.trans {last : Session format} (h : Changed answers op self next)
    (h' : Changed answers op next last) : Changed answers op self last := by
  have hwallet := h.wallet_eq
  refine ⟨h'.wallet_eq.trans hwallet, fun ht => ?_, fun hl => ?_, fun address utxos hu => ?_⟩
  · exact hwallet ▸ h'.tracked (hwallet ▸ h.tracked ht)
  · exact hwallet ▸ h'.labelled (hwallet ▸ h.labelled hl)
  · rcases h'.cached address utxos hu with hu | hu | ⟨m, hu⟩ | hu
    · exact h.cached address utxos hu
    · exact .inr (.inl hu)
    · exact .inr (.inr (.inl ⟨m, fetchAt_congr hwallet ▸ hu⟩))
    · exact .inr (.inr (.inr hu))

lemma changed_loadTip (tip : Tip Address) :
    Changed answers (.loadTip tip) self (self.loadTip tip) := by
  refine ⟨rfl, fun _ => Tip.isTracked_track_self, id, fun address utxos hu => ?_⟩
  rcases Tip.utxosAt_track hu with hu | hu
  · exact .inr (.inr (.inr ⟨tip, rfl, hu⟩))
  · exact .inr (.inl hu)

lemma changed_loadAddressbook (hformat : format.Faithful) {book : Addressbook format}
    (h : self.loadAddressbook book = .ok next) : Changed answers op self next := by
  rw [loadAddressbook] at h
  split at h
  · rename_i label hlabel
    obtain rfl := Except.ok.inj h
    exact ⟨rfl, id, fun _ => ⟨label, (Addressbook.getLabel_eq_some_iff hformat).mp hlabel⟩,
      fun _ _ hu => .inl hu⟩
  · obtain ⟨book', hinsert, h⟩ := Result.bind_eq_ok.mp h
    obtain rfl := Except.ok.inj h
    exact ⟨rfl, id, fun _ => ⟨_, (Addressbook.get_of_insert (Result.mapError_eq_ok.mp hinsert)).1⟩,
      fun _ _ hu => .inl hu⟩

lemma changed_track {label : String} (h : self.track label address = .ok next) :
    Changed answers op self next := by
  have hcached : ∀ address' utxos, (self.tip.track address).utxosAt address' = some utxos →
      self.tip.utxosAt address' = some utxos ∨ utxos = ∅ ∨
        (∃ n, self.fetchAt answers n address' = .ok utxos) ∨
          ∃ tip, op = .loadTip tip ∧ tip.utxosAt address' = some utxos :=
    fun _ _ hu => (Tip.utxosAt_track hu).imp_right .inl
  rw [track] at h
  split at h
  · rename_i book hinsert
    obtain rfl := Except.ok.inj h
    exact ⟨rfl, Tip.isTracked_track,
      fun ⟨label', hl⟩ => ⟨label', (Addressbook.get_of_insert hinsert).2 _ _ hl⟩, hcached⟩
  · obtain rfl := Except.ok.inj h
    exact ⟨rfl, Tip.isTracked_track, id, hcached⟩
  · cases h

/-- What fails changes nothing. -/
lemma changed_orKeep {result : Except SessionError (Session format)}
    (h : ∀ next, result = .ok next → Changed answers op self next) :
    Changed answers op self (self.orKeep result).2 := by
  cases result with
  | error e => exact .refl
  | ok next => exact h next rfl

/-- What fails changes nothing, but that the wallet's own address may have been refreshed. -/
lemma eq_of_apply {e : SessionError} (h : self.apply answers op = (.error e, next)) :
    next = self ∨ op = .refreshAll ∧ self.refreshAt answers 0 self.walletAddress = .ok next := by
  cases op with
  | loadTip tip => cases congrArg Prod.fst h
  | refreshAll =>
    rw [apply, refreshAll] at h
    cases hwallet : self.refreshAt answers 0 self.walletAddress with
    | error e' =>
      rw [hwallet] at h
      exact .inl (congrArg Prod.snd h).symm
    | ok session =>
      simp only [hwallet] at h
      split at h
      · exact .inr ⟨rfl, congrArg Except.ok (congrArg Prod.snd h)⟩
      · cases congrArg Prod.fst h
  | _ => exact .inl (eq_of_orKeep h)

variable [Std.LawfulEqOrd Address]

lemma changed_refresh (h : self.fetchAt answers n address = .ok utxos) :
    Changed answers op self { self with tip := self.tip.refresh address utxos } := by
  refine ⟨rfl, Tip.isTracked_refresh, id, fun address' utxos' hu => ?_⟩
  rcases Tip.utxosAt_refresh hu with hu | ⟨rfl, rfl⟩
  · exact .inl hu
  · exact .inr (.inr (.inl ⟨n, h⟩))

lemma changed_refreshAt (h : self.refreshAt answers n address = .ok next) :
    Changed answers op self next := by
  obtain ⟨utxos, hfetch, h⟩ := Result.bind_eq_ok.mp h
  obtain rfl := Except.ok.inj h
  exact changed_refresh hfetch

lemma changed_refreshMany {addresses : List Address}
    (h : self.refreshMany answers n addresses = .ok next) : Changed answers op self next := by
  obtain ⟨snapshots, hfetch, h⟩ := Result.bind_eq_ok.mp h
  obtain rfl := Except.ok.inj h
  refine ⟨rfl, Tip.isTracked_refreshMany, id, fun address utxos hu => ?_⟩
  rcases Tip.utxosAt_refreshMany hu with hu | hmem
  · exact .inl hu
  · exact .inr (.inr (.inl (mem_fetchMany hfetch _ hmem)))

/-- All is refreshed, or only the wallet's own address. -/
lemma changed_refreshAll : Changed answers op self (self.refreshAll answers).2 := by
  rw [refreshAll]
  cases hwallet : self.refreshAt answers 0 self.walletAddress with
  | error e => exact .refl
  | ok session =>
    dsimp only
    split
    · exact changed_refreshAt hwallet
    · rename_i session' hmany
      exact (changed_refreshAt hwallet).trans (changed_refreshMany hmany)

lemma changed_waitFor {id : Bytes} {attempts : ℕ}
    (h : self.waitFor answers address id attempts n = .ok next) :
    Changed answers op self next := by
  induction attempts generalizing n with
  | zero => cases h
  | succ attempts ih =>
    obtain ⟨utxos, hfetch, h⟩ := Result.bind_eq_ok.mp h
    split_ifs at h
    · obtain rfl := Except.ok.inj h
      exact changed_refresh hfetch
    · exact ih h

/-- The wallet's own address is not forgotten, nor its label with that of another one. -/
lemma changed_forget (hformat : format.Faithful) (h : self.forget address = .ok next) :
    Changed answers op self next := by
  rw [forget] at h
  split_ifs at h with hne
  obtain rfl := Except.ok.inj h
  refine ⟨rfl, fun ht => Tip.isTracked_untrack ht hne, ?_, fun _ _ hu =>
    .inl (Tip.utxosAt_untrack hu)⟩
  rintro ⟨label, hl⟩
  refine ⟨label, (Addressbook.getLabel_eq_some_iff hformat).mp ?_⟩
  rw [Addressbook.getLabel_removeByAddress hformat hne]
  exact (Addressbook.getLabel_eq_some_iff hformat).mpr hl

lemma changed_apply (hformat : format.Faithful) :
    Changed answers op self (self.apply answers op).2 := by
  cases op with
  | loadTip tip => exact changed_loadTip tip
  | loadAddressbook book => exact changed_orKeep fun _ h => changed_loadAddressbook hformat h
  | refreshAt address => exact changed_orKeep fun _ h => changed_refreshAt h
  | refresh input =>
    refine changed_orKeep fun _ h => ?_
    obtain ⟨address, -, h⟩ := Result.bind_eq_ok.mp h
    exact changed_refreshAt h
  | refreshMany addresses => exact changed_orKeep fun _ h => changed_refreshMany h
  | refreshAll => exact changed_refreshAll
  | track label address => exact changed_orKeep fun _ h => changed_track h
  | forget address => exact changed_orKeep fun _ h => changed_forget hformat h
  | untrack label =>
    refine changed_orKeep fun _ h => ?_
    obtain ⟨address, -, h⟩ := Result.bind_eq_ok.mp h
    exact changed_forget hformat h
  | waitFor address id attempts => exact changed_orKeep fun _ h => changed_waitFor h

end Steps

/-! ### Whole runs -/

/-- A session of a wallet, after these operations. -/
structure Kept (wallet : Address) (ops : List (Answers × Op format)) (session : Session format) :
    Prop where
  wallet_eq : session.walletAddress = wallet
  tracked : session.tip.isTracked wallet = true
  labelled : ∃ label, session.addressbook.get label = some wallet
  cached : ∀ address utxos, session.tip.utxosAt address = some utxos → utxos = ∅ ∨
    (∃ x ∈ ops, ∃ n, session.fetchAt x.1 n address = .ok utxos) ∨
      ∃ x ∈ ops, ∃ tip, x.2 = .loadTip tip ∧ tip.utxosAt address = some utxos
  failed : ∀ answers op e next, session.apply answers op = (.error e, next) →
    next = session ∨ op = .refreshAll ∧ session.refreshAt answers 0 wallet = .ok next

variable [Std.LawfulEqOrd Address]

lemma Kept.step (hformat : format.Faithful) {wallet : Address} {ops : List (Answers × Op format)}
    {session : Session format} (h : Kept wallet ops session) (x : Answers × Op format) :
    Kept wallet (ops ++ [x]) (session.apply x.1 x.2).2 := by
  have hchanged := @changed_apply _ _ _ _ _ session x.1 x.2 _ hformat
  have hwallet := hchanged.wallet_eq.trans h.wallet_eq
  obtain rfl := h.wallet_eq
  refine ⟨hwallet, hchanged.tracked h.tracked, hchanged.labelled h.labelled,
    fun address utxos hu => ?_, fun answers op e next hfails => ?_⟩
  · -- it was there already, or comes of this operation
    simp only [List.mem_append, List.mem_singleton, fetchAt_congr hwallet]
    rcases hchanged.cached address utxos hu with hu | hu | ⟨n, hu⟩ | ⟨tip, htip, hu⟩
    · rcases h.cached address utxos hu with hu | ⟨y, hy, hu⟩ | ⟨y, hy, hu⟩
      · exact .inl hu
      · exact .inr (.inl ⟨y, .inl hy, hu⟩)
      · exact .inr (.inr ⟨y, .inl hy, hu⟩)
    · exact .inl hu
    · exact .inr (.inl ⟨x, .inr rfl, n, hu⟩)
    · exact .inr (.inr ⟨x, .inr rfl, tip, htip, hu⟩)
  · have heq := eq_of_apply hfails
    rwa [hwallet] at heq

/-- **Sessions.**  A session starts for any wallet.  Whatever is done to it then, with whatever
answers, the wallet's own address is tracked and has a label, what is kept at an address was fetched
there or loaded, and what fails changes nothing but that refreshing all may refresh only the
wallet. -/
theorem session_kept (hformat : format.Faithful) (wallet : Address) :
    ∃ start, Session.new format wallet = .ok start ∧
      ∀ ops : List (Answers × Op format), Kept wallet ops (start.after ops) := by
  obtain ⟨book, hinsert⟩ := @Addressbook.insert_empty _ format _ walletLabel wallet
  have hnew : Session.new format wallet = .ok ⟨wallet, Tip.empty.track wallet, book⟩ := by
    rw [Session.new, hinsert]
    rfl
  refine ⟨_, hnew, fun ops => ?_⟩
  induction ops using List.reverseRecOn with
  | nil =>
    refine ⟨rfl, Tip.isTracked_track_self, ⟨walletLabel, (Addressbook.get_of_insert hinsert).1⟩,
      fun address utxos hu => ?_, fun answers op e next hfails => eq_of_apply hfails⟩
    rcases Tip.utxosAt_track hu with hu | hu
    · simp [Tip.utxosAt, Tip.empty] at hu
    · exact .inl hu
  | append_singleton ops x ih =>
    rw [after, List.foldl_concat]
    exact ih.step hformat x

end Session

namespace Session.Sample

/-- Another address gets a label; its outputs are fetched, and forgotten again when this is asked
for under its text.  The wallet's own address is not forgotten. -/
def ops (hash : Kernel.ScriptHash) : List (Answers × Op (textFormat hash)) :=
  let answers : Answers := ⟨fun _ => .ok none, fun _ _ _ => .ok ∅⟩
  [(answers, .track "escrow" "konduit1"), (answers, .refreshAll), (answers, .untrack "konduit1"),
    (answers, .untrack "wallet")]

end Session.Sample

theorem Session.session_kept_of_untrack : ∃ start,
    Session.new (Sample.textFormat []) "addr1" = .ok start ∧
      Kept "addr1" (Sample.ops []) (start.after (Sample.ops [])) := by
  obtain ⟨start, hnew, hkept⟩ := Session.session_kept (Sample.faithful []) "addr1"
  exact ⟨start, hnew, hkept _⟩

end Konduit
