import Mathlib.Logic.Function.Basic
import Konduit.Lib.Trace
import Konduit.Server.Commitments

/-!
# The channel store

The server keeps one entry for each channel, as bytes.  A request, like the server's own
syncs with its node and with the chain, reads the entry, lets the event happen to the
channel, and writes it back; an entry that cannot be read is fatal.  The module shows which
requests keep the store readable (`entries_read_back`), and what holds of every receipt that
is read (`Reachable.squash`).
-/

open Lib

namespace Konduit.Server

open Data Tmp

/-! ### Entries -/

/-- What is stored of a channel. -/
structure Value where
  retainer : Option Retainer
  receipt : Option Receipt
  aux : Aux
deriving DecidableEq

instance : Inhabited Value := ⟨⟨none, none, default⟩⟩

/-- The key of an entry. -/
structure Keytag where
  key : VerifyingKey
  tag : Tag
deriving DecidableEq

namespace Retainer

/-- A retainer in CBOR. -/
def encode (self : Retainer) : Bytes :=
  Cbor.array 3 ++ Cbor.uint self.amount ++ Cbor.uint self.subbed ++
    Cbor.vec Used.encode self.useds

/-- A retainer in CBOR, with any fields after those that are known. -/
def decode (b : Bytes) : Option (Retainer × Bytes) := do
  let (left, b) ← Cbor.readArray b
  let (amount, left, b) ← Cbor.readField Cbor.readUInt none left b
  let (subbed, left, b) ← Cbor.readField Cbor.readUInt none left b
  let (useds, left, b) ← Cbor.readField (Cbor.readItems Used.decode) none left b
  let (_, b) ← Cbor.readRest left b
  if h : useds.length < 2 ^ 64 then some (⟨amount, subbed, useds, h⟩, b) else none

lemma decode_encode (self : Retainer) (b : Bytes) : decode (self.encode ++ b) = some (self, b) := by
  have huseds : Cbor.readItems Used.decode (Cbor.vec Used.encode self.useds ++ b) =
      some (self.useds, b) := by
    have := @Cbor.readItems_vec b _ Used.encode self.useds _ Used.decode id
      (lt_of_lt_of_le self.length_useds (by norm_num)) fun u _ => u.decode_encode
    rwa [List.map_id] at this
  have harray := Cbor.readArray_array (n := 3) (Cbor.uint self.amount ++ (Cbor.uint self.subbed ++
    (Cbor.vec Used.encode self.useds ++ b))) (by norm_num)
  simp only [decode, encode, List.append_assoc, harray, Option.bind_eq_bind, Option.bind_some,
    Cbor.readField_succ, Cbor.readUInt_uint, Option.map_some, huseds, Cbor.readRest_zero]
  rw [dif_pos self.length_useds]

end Retainer

namespace Aux

/-- What is kept beside the receipt, in CBOR. -/
def encode (self : Aux) : Bytes := Cbor.array 1 ++ Cbor.bool self.isActive

/-- What is kept beside the receipt, from CBOR. -/
def decode (b : Bytes) : Option (Aux × Bytes) := do
  let (left, b) ← Cbor.readArray b
  let (isActive, left, b) ← Cbor.readField Cbor.readBool none left b
  let (_, b) ← Cbor.readRest left b
  return (⟨isActive⟩, b)

lemma decode_encode (self : Aux) (b : Bytes) : decode (self.encode ++ b) = some (self, b) := by
  have harray := Cbor.readArray_array (n := 1) (Cbor.bool self.isActive ++ b) (by norm_num)
  simp [decode, encode, harray]

end Aux

namespace Value

/-- An entry in CBOR. -/
def encode (self : Value) : Bytes :=
  Cbor.array 3 ++ Cbor.optional Retainer.encode self.retainer ++
    Cbor.optional Receipt.encode self.receipt ++ self.aux.encode

/-- An entry in CBOR; the retainer and the receipt may be missing. -/
def decode (b : Bytes) : Option (Value × Bytes) := do
  let (left, b) ← Cbor.readArray b
  let (retainer, left, b) ← Cbor.readField (Cbor.readOptional Retainer.decode) (some none) left b
  let (receipt, left, b) ← Cbor.readField (Cbor.readOptional Receipt.decode) (some none) left b
  let (aux, left, b) ← Cbor.readField Aux.decode none left b
  let (_, b) ← Cbor.readRest left b
  return (⟨retainer, receipt, aux⟩, b)

/-- Read an entry; the server panics when there is none to read. -/
def fromBytes (b : Bytes) : Option Value := (decode b).map Prod.fst

/-- The channel of an entry. -/
def toChannel (self : Value) (keytag : Keytag) : Channel :=
  ⟨keytag.key, keytag.tag, self.retainer, self.receipt, self.aux⟩

/-- The entry of a channel. -/
def fromChannel (channel : Channel) : Value := ⟨channel.retainer, channel.receipt, channel.aux⟩

/-- The squash is well-formed, and the timeouts are in whole milliseconds. -/
structure Storable (value : Value) : Prop where
  wellFormed : ∀ r ∈ value.receipt, r.squash.body.WellFormed
  canonical : ∀ r ∈ value.receipt, ∀ c ∈ r.cheques, c.timeout.Canonical

/-- No more cheques than the adaptor takes. -/
def Short (self : Value) : Prop := ∀ r ∈ self.receipt, r.cheques.length ≤ maxUnsquashed

/-- The value as it comes off the wire. -/
def wire (self : Value) : Value := { self with receipt := self.receipt.map Receipt.wire }

/-- An entry is read back when its squash is well-formed, and not at all otherwise. -/
lemma fromBytes_encode {self : Value} (hshort : self.Short) :
    fromBytes self.encode =
      if ∀ r ∈ self.receipt, r.squash.body.WellFormed then some self.wire else none := by
  obtain ⟨retainer, receipt, aux⟩ := self
  -- the three fields in their order; only the squash may fail to be read
  have harray : ∀ d, Cbor.readArray (Cbor.array 3 ++ d) = some (some 3, d) := fun d =>
    Cbor.readArray_array d (by norm_num)
  have hretainer : ∀ d, Cbor.readOptional Retainer.decode
      (Cbor.optional Retainer.encode retainer ++ d) = some (retainer, d) := by
    intro d
    rw [Cbor.readOptional_optional d fun r _ d' => by simp [Retainer.encode, Cbor.array, Cbor.head]]
    cases retainer with
    | none => rfl
    | some r => simp [r.decode_encode]
  have hreceipt : ∀ d, Cbor.readOptional Receipt.decode
      (Cbor.optional Receipt.encode receipt ++ d) =
        if ∀ r ∈ receipt, r.squash.body.WellFormed then some (receipt.map Receipt.wire, d)
        else none := by
    intro d
    rw [Cbor.readOptional_optional d fun r _ d' => by simp [Receipt.encode, Cbor.array, Cbor.head]]
    cases receipt with
    | none => simp
    | some r =>
      have hlen : r.cheques.length < 256 ^ 8 := lt_of_le_of_lt (hshort r rfl) (by decide)
      simp only [r.decode_encode hlen, Option.mem_def, Option.some.injEq, forall_eq']
      split_ifs <;> rfl
  have haux : Aux.decode aux.encode = some (aux, []) := by
    have := aux.decode_encode []
    rwa [List.append_nil] at this
  simp only [fromBytes, decode, encode, List.append_assoc, harray, Option.bind_eq_bind,
    Option.bind_some, Cbor.readField_succ, hretainer, Option.map_some, hreceipt]
  split_ifs with hwf
  · simp only [Option.map_some, Option.bind_some, Cbor.readField_succ, haux, Cbor.readRest_zero,
      Option.pure_def, wire]
  · rfl

lemma wire_eq_self {self : Value} :
    self.wire = self ↔ ∀ r ∈ self.receipt, ∀ c ∈ r.cheques, c.timeout.Canonical := by
  obtain ⟨retainer, receipt, aux⟩ := self
  cases receipt with
  | none => simp [wire]
  | some r => simp [wire, Receipt.wire_eq_self]

/-- An entry is read back as it was written just when it is storable. -/
theorem fromBytes_encode_iff {self : Value} (hshort : self.Short) :
    fromBytes self.encode = some self ↔ self.Storable := by
  rw [fromBytes_encode hshort]
  split_ifs with hwf
  · rw [Option.some.injEq, wire_eq_self]
    exact ⟨fun h => ⟨hwf, h⟩, fun h => h.canonical⟩
  · exact iff_of_false (by simp) fun h => hwf h.wellFormed

end Value

/-! ### Requests -/

/-- The table of entries. -/
abbrev Store := Keytag → Option Bytes

/-- Why the store refuses an event. -/
inductive DbError where
  | noChannel
  /-- No error of the source: an entry that cannot be read is a panic. -/
  | corrupt
  | channel (e : ChannelError)
deriving DecidableEq

/-- Read the channel of an entry. -/
def Store.get (store : Store) (keytag : Keytag) : Except DbError Channel :=
  match store keytag with
  | none => .error .noChannel
  | some bytes =>
    match Value.fromBytes bytes with
    | none => .error .corrupt
    | some value => .ok (value.toChannel keytag)

/-- Read the channel of an entry, or a new one where there is none. -/
def Store.getOrDefault (store : Store) (keytag : Keytag) : Except DbError Channel :=
  match store keytag with
  | none => .ok ((default : Value).toChannel keytag)
  | some _ => store.get keytag

/-- Write what becomes of the channel that was read.  The value comes with the new store. -/
def Store.write (store : Store) (keytag : Keytag) (current : Except DbError Channel)
    (f : Channel → Except ChannelError Channel) : Except DbError (Value × Store) := do
  let channel ← current
  let channel ← (f channel).mapError .channel
  let value := Value.fromChannel channel
  return (value, Function.update store keytag (some value.encode))

/-- Change an entry. -/
def Store.update (store : Store) (keytag : Keytag)
    (f : Channel → Except ChannelError Channel) : Except DbError (Value × Store) :=
  store.write keytag (store.get keytag) f

/-- Change an entry, or make it. -/
def Store.upsert (store : Store) (keytag : Keytag)
    (f : Channel → Except ChannelError Channel) : Except DbError (Value × Store) :=
  store.write keytag (store.getOrDefault keytag) f

/-- What changes a channel: a request, the secrets that the node reveals, and the channels that
are found on chain. -/
inductive Request where
  | squash (doc : Document)
  | pay (doc : Document)
  | secrets (secrets : List Secret)
  | retainers (candidates : List Retainer)

/-- A request, the channel it is for, and the clock and the rate at the time. -/
structure Call where
  keytag : Keytag
  request : Request
  now : Duration
  lovelaceToMsat : UInt64 → UInt64

/-- Why a request is refused. -/
inductive ServeError where
  | unmediate
  | commitment (e : CommitmentError)
  | db (e : DbError)
deriving DecidableEq

section Serve

variable (crypto : Crypto) (parseInvoice : PayBody.ParseInvoice)

/-- A squash in the media type that it came in. -/
def unmediateSquash : Document → Option (Squash .unverified) :=
  Document.unmediate Squash.ofJson Squash.decode

/-- Serve a request: the new store, with the value that was written if any was. -/
def serve (store : Store) (call : Call) : Except ServeError (Option Value × Store) :=
  match call.request with
  | .squash doc =>
    match unmediateSquash doc with
    | none => .error .unmediate
    | some squash =>
      match store.update call.keytag fun c => c.applySquash crypto squash with
      | .ok (value, store) => .ok (some value, store)
      -- a squash that the receipt refuses changes nothing
      | .error (.channel (.receipt _)) => .ok (none, store)
      | .error e => .error (.db e)
  | .pay doc =>
    match PayBody.unmediate parseInvoice doc with
    | none => .error .unmediate
    | some body => do
      let _ ← (alignCommitments call.lovelaceToMsat call.now body.locked body.invoice).mapError
        .commitment
      let (value, store) ←
        (store.update call.keytag fun c => c.applyLocked crypto body.locked).mapError .db
      return (some value, store)
  | .secrets secrets => do
    let (value, store) ←
      (store.update call.keytag fun c => c.applySecrets crypto secrets).mapError .db
    return (some value, store)
  | .retainers candidates => do
    let (value, store) ←
      (store.upsert call.keytag fun c => c.applyRetainer candidates).mapError .db
    return (some value, store)

/-- What a request does to its channel when it is let in. -/
def Request.Changes (channel channel' : Channel) : Request → Prop
  | squash doc => ∃ squash, unmediateSquash doc = some squash ∧
      channel.applySquash crypto squash = .ok channel'
  | pay doc => ∃ body, PayBody.unmediate parseInvoice doc = some body ∧
      channel.applyLocked crypto body.locked = .ok channel'
  | secrets ss => channel.applySecrets crypto ss = .ok channel'
  | retainers candidates => channel.applyRetainer candidates = .ok channel'

/-- What a request carries can be stored: a well-formed squash, a timeout in whole
milliseconds. -/
def Request.Storable : Request → Prop
  | squash doc => ∀ squash, unmediateSquash doc = some squash → squash.body.WellFormed
  | pay doc => ∀ body, PayBody.unmediate parseInvoice doc = some body →
      body.chequeBody.timeout.Canonical
  | secrets _ | retainers _ => True

/-- A request that is served, and the value that is written for it. -/
structure Transition where
  call : Call
  written : Option Value

/-- The server serves a request, and writes this entry. -/
def Serves (store : Store) (t : Transition) (store' : Store) : Prop :=
  serve crypto parseInvoice store t.call = .ok (t.written, store')

/-- The runs of the store, each with the list of the requests that are served. -/
abbrev Run : Store → List Transition → Store → Prop := Trace (Serves crypto parseInvoice)

/-- No consumer has handed out a receipt yet. -/
def Store.Fresh (store : Store) : Prop :=
  ∀ keytag bytes, store keytag = some bytes →
    ∃ retainer aux, bytes = Value.encode ⟨retainer, none, aux⟩

end Serve

/-! ### What a request does to the store -/

section Steps

variable {crypto : Crypto} {parseInvoice : PayBody.ParseInvoice} {store store' : Store}

lemma Store.get_eq_ok {keytag : Keytag} {channel : Channel} :
    store.get keytag = .ok channel ↔ ∃ bytes value, store keytag = some bytes ∧
      Value.fromBytes bytes = some value ∧ channel = value.toChannel keytag := by
  rw [Store.get]
  cases hbytes : store keytag with
  | none => simp
  | some bytes => cases hvalue : Value.fromBytes bytes <;> simp [hvalue, eq_comm]

/-- No channel refuses to be read. -/
lemma Store.get_ne_channel {keytag : Keytag} (e : ChannelError) :
    store.get keytag ≠ .error (.channel e) := by
  rw [Store.get]
  cases store keytag with
  | none => simp
  | some bytes => cases hvalue : Value.fromBytes bytes <;> simp [hvalue]

lemma Store.getOrDefault_of_get {keytag : Keytag} {channel : Channel}
    (h : store.get keytag = .ok channel) : store.getOrDefault keytag = .ok channel := by
  obtain ⟨bytes, value, hbytes, -⟩ := Store.get_eq_ok.mp h
  simp only [Store.getOrDefault, hbytes, h]

/-- What is written is what the event makes of the channel that was read. -/
lemma Store.write_eq_ok {keytag : Keytag} {current : Except DbError Channel}
    {f : Channel → Except ChannelError Channel} {value : Value} :
    store.write keytag current f = .ok (value, store') ↔
      ∃ old channel, current = .ok old ∧ f old = .ok channel ∧ value = .fromChannel channel ∧
        store' = Function.update store keytag (some value.encode) := by
  simp only [Store.write, Result.bind_eq_ok, Result.mapError_eq_ok, Result.pure_eq_ok,
    Prod.mk.injEq]
  constructor
  · rintro ⟨old, hold, channel, hchannel, rfl, rfl⟩
    exact ⟨old, channel, hold, hchannel, rfl, rfl⟩
  · rintro ⟨old, channel, hold, hchannel, rfl, rfl⟩
    exact ⟨old, hold, channel, hchannel, rfl, rfl⟩

/-- A served request changes nothing, or one entry as it should. -/
lemma Serves.cases {t : Transition} (h : Serves crypto parseInvoice store t store') :
    (t.written = none ∧ store' = store) ∨
      ∃ old channel, store.getOrDefault t.call.keytag = .ok old ∧
        t.call.request.Changes crypto parseInvoice old channel ∧
        t.written = some (.fromChannel channel) ∧
        store' = Function.update store t.call.keytag (some (Value.fromChannel channel).encode) := by
  obtain ⟨⟨keytag, request, now, lovelaceToMsat⟩, written⟩ := t
  rw [Serves, serve] at h
  cases request with
  | squash doc =>
    simp only at h
    split at h
    · exact absurd h (by simp)
    · rename_i squash hsquash
      split at h
      · rename_i value store'' hupdate
        obtain ⟨rfl, rfl⟩ := Prod.mk.inj (Except.ok.inj h)
        obtain ⟨old, channel, hold, happly, rfl, rfl⟩ := Store.write_eq_ok.mp hupdate
        exact Or.inr ⟨old, channel, Store.getOrDefault_of_get hold, ⟨squash, hsquash, happly⟩, rfl,
          rfl⟩
      · obtain ⟨rfl, rfl⟩ := Prod.mk.inj (Except.ok.inj h)
        exact Or.inl ⟨rfl, rfl⟩
      · exact absurd h (by simp)
  | pay doc =>
    simp only at h
    split at h
    · exact absurd h (by simp)
    · rename_i body hbody
      simp only [Result.bind_eq_ok, Result.mapError_eq_ok] at h
      obtain ⟨_, _, ⟨value, store''⟩, hupdate, h⟩ := h
      obtain ⟨rfl, rfl⟩ := Prod.mk.inj (Result.pure_eq_ok.mp h)
      obtain ⟨old, channel, hold, happly, rfl, rfl⟩ := Store.write_eq_ok.mp hupdate
      exact Or.inr ⟨old, channel, Store.getOrDefault_of_get hold, ⟨body, hbody, happly⟩, rfl, rfl⟩
  | secrets secrets =>
    simp only [Result.bind_eq_ok, Result.mapError_eq_ok] at h
    obtain ⟨⟨value, store''⟩, hupdate, h⟩ := h
    obtain ⟨rfl, rfl⟩ := Prod.mk.inj (Result.pure_eq_ok.mp h)
    obtain ⟨old, channel, hold, happly, rfl, rfl⟩ := Store.write_eq_ok.mp hupdate
    exact Or.inr ⟨old, channel, Store.getOrDefault_of_get hold, happly, rfl, rfl⟩
  | retainers candidates =>
    simp only [Result.bind_eq_ok, Result.mapError_eq_ok] at h
    obtain ⟨⟨value, store''⟩, hupsert, h⟩ := h
    obtain ⟨rfl, rfl⟩ := Prod.mk.inj (Result.pure_eq_ok.mp h)
    obtain ⟨old, channel, hold, happly, rfl, rfl⟩ := Store.write_eq_ok.mp hupsert
    exact Or.inr ⟨old, channel, hold, happly, rfl, rfl⟩

/-- A change that the channel of an entry takes is served; a payment has to be aligned. -/
lemma Serves.of_changes {call : Call} {old channel : Channel}
    (hold : store.get call.keytag = .ok old)
    (hchanges : call.request.Changes crypto parseInvoice old channel)
    (halign : ∀ doc, call.request = .pay doc →
      ∀ body, PayBody.unmediate parseInvoice doc = some body →
        ∃ r, alignCommitments call.lovelaceToMsat call.now body.locked body.invoice = .ok r) :
    Serves crypto parseInvoice store ⟨call, some (.fromChannel channel)⟩
      (Function.update store call.keytag (some (Value.fromChannel channel).encode)) := by
  obtain ⟨keytag, request, now, lovelaceToMsat⟩ := call
  rw [Serves, serve]
  cases request with
  | squash doc =>
    obtain ⟨squash, hsquash, happly⟩ := hchanges
    have hupdate : store.update keytag (fun c => c.applySquash crypto squash) = .ok _ :=
      Store.write_eq_ok.mpr ⟨old, channel, hold, happly, rfl, rfl⟩
    simp only [hsquash, hupdate]
  | pay doc =>
    obtain ⟨body, hbody, happly⟩ := hchanges
    obtain ⟨r, hr⟩ := halign doc rfl body hbody
    have hupdate : store.update keytag (fun c => c.applyLocked crypto body.locked) = .ok _ :=
      Store.write_eq_ok.mpr ⟨old, channel, hold, happly, rfl, rfl⟩
    simp only [hbody, Result.bind_eq_ok, Result.mapError_eq_ok, Result.pure_eq_ok]
    exact ⟨r, hr, _, hupdate, rfl⟩
  | secrets secrets =>
    have hupdate : store.update keytag (fun c => c.applySecrets crypto secrets) = .ok _ :=
      Store.write_eq_ok.mpr ⟨old, channel, hold, hchanges, rfl, rfl⟩
    simp only [Result.bind_eq_ok, Result.mapError_eq_ok, Result.pure_eq_ok]
    exact ⟨_, hupdate, rfl⟩
  | retainers candidates =>
    have hupsert : store.upsert keytag (fun c => c.applyRetainer candidates) = .ok _ :=
      Store.write_eq_ok.mpr
        ⟨old, channel, Store.getOrDefault_of_get hold, hchanges, rfl, rfl⟩
    simp only [Result.bind_eq_ok, Result.mapError_eq_ok, Result.pure_eq_ok]
    exact ⟨_, hupsert, rfl⟩

/-- Every entry was written for a value with a property, which may depend on the key. -/
def Store.All (store : Store) (P : Keytag → Value → Prop) : Prop :=
  ∀ keytag bytes, store keytag = some bytes → ∃ value : Value, bytes = value.encode ∧ P keytag value

lemma Store.All.of_fresh {P : Keytag → Value → Prop} (h : store.Fresh)
    (hP : ∀ keytag retainer aux, P keytag ⟨retainer, none, aux⟩) : store.All P := by
  intro keytag bytes hbytes
  obtain ⟨retainer, aux, rfl⟩ := h keytag bytes hbytes
  exact ⟨_, rfl, hP keytag retainer aux⟩

lemma Value.fromBytes_encode_default : fromBytes (encode default) = some default :=
  (fromBytes_encode_iff (by simp [Short, default])).mpr ⟨by simp [default], by simp [default]⟩

/-- A channel that is read is that of a value with the property. -/
lemma Store.All.getOrDefault {P : Keytag → Value → Prop} {keytag : Keytag} {channel : Channel}
    (hs : store.All P) (hdefault : ∀ keytag, P keytag default)
    (h : store.getOrDefault keytag = .ok channel) :
    ∃ value old : Value, P keytag value ∧ Value.fromBytes value.encode = some old ∧
      channel = old.toChannel keytag := by
  rw [Store.getOrDefault] at h
  split at h
  · obtain rfl := Except.ok.inj h
    exact ⟨default, default, hdefault keytag, Value.fromBytes_encode_default, rfl⟩
  · obtain ⟨bytes, old, hbytes, hold, rfl⟩ := Store.get_eq_ok.mp h
    obtain ⟨value, rfl, hvalue⟩ := hs keytag bytes hbytes
    exact ⟨value, old, hvalue, hold, rfl⟩

/-- What a request's change preserves, of the entry it reads, every entry keeps. -/
lemma Store.All.serves {P : Keytag → Value → Prop} {t : Transition} (hs : store.All P)
    (hdefault : ∀ keytag, P keytag default) (h : Serves crypto parseInvoice store t store')
    (hP : ∀ {value old channel}, P t.call.keytag value → Value.fromBytes value.encode = some old →
      t.call.request.Changes crypto parseInvoice (old.toChannel t.call.keytag) channel →
      P t.call.keytag (.fromChannel channel)) :
    (∀ value ∈ t.written, P t.call.keytag value) ∧ store'.All P := by
  rcases h.cases with ⟨hwritten, rfl⟩ | ⟨_, channel, hget, hchanges, hwritten, rfl⟩
  · exact ⟨by simp [hwritten], hs⟩
  · obtain ⟨value, old, hvalue, hold, rfl⟩ := hs.getOrDefault hdefault hget
    have hnew := hP hvalue hold hchanges
    refine ⟨fun v hv => ?_, fun keytag' bytes' hbytes' => ?_⟩
    · obtain rfl := Option.some.inj (hwritten.symm.trans hv)
      exact hnew
    · -- the entry that was written, or another one
      rcases eq_or_ne keytag' t.call.keytag with rfl | hne
      · rw [Function.update_self] at hbytes'
        exact ⟨_, (Option.some.inj hbytes').symm, hnew⟩
      · rw [Function.update_of_ne hne] at hbytes'
        exact hs keytag' bytes' hbytes'

end Steps

/-! ### What a run keeps -/

section Kept

variable {crypto : Crypto} {parseInvoice : PayBody.ParseInvoice} {channel channel' : Channel}
  {S : Squash .verified → Prop} {C : Cheque .verified → Prop}

/-- The squash has one property, the cheques have another, and they are not too many. -/
structure Kept (S : Squash .verified → Prop) (C : Cheque .verified → Prop)
    (receipt : Receipt) : Prop where
  squash : S receipt.squash
  cheques : ∀ c ∈ receipt.cheques, C c
  short : receipt.cheques.length ≤ maxUnsquashed

/-- What a request carries has these properties, once it verifies. -/
def Request.Carries (crypto : Crypto) (parseInvoice : PayBody.ParseInvoice) (keytag : Keytag)
    (S : Squash .verified → Prop) (C : Cheque .verified → Prop) : Request → Prop
  | squash doc => ∀ squash verified, unmediateSquash doc = some squash →
      squash.tryVerify crypto keytag.key keytag.tag = .ok verified → S verified
  | pay doc => ∀ body verified, PayBody.unmediate parseInvoice doc = some body →
      body.locked.tryVerify crypto keytag.key keytag.tag = .ok verified → C (.locked verified)
  | secrets _ | retainers _ => True

lemma Kept.applySquash {squash : Squash .unverified} (hk : ∀ r ∈ channel.receipt, Kept S C r)
    (h : channel.applySquash crypto squash = .ok channel')
    (hsquash : ∀ verified, squash.tryVerify crypto channel.key channel.tag = .ok verified →
      S verified) : ∀ r ∈ channel'.receipt, Kept S C r := by
  obtain ⟨receipt, rfl, hverify, hcheques⟩ := Channel.applySquash_eq_ok h
  rintro r hr
  obtain rfl := Option.some.inj hr
  rcases hcheques with hnil | ⟨old, hold, happly⟩
  · exact ⟨hsquash _ hverify, by simp [hnil], by simp [hnil]⟩
  · have hkept := hk old hold
    rw [(Receipt.applySquash_eq_ok.mp happly).2]
    exact {
      squash := hsquash _ hverify
      cheques := fun c hc => hkept.cheques c (List.mem_of_mem_filter hc)
      short := (List.length_filter_le _ _).trans hkept.short }

lemma Kept.applyLocked {locked : Locked .unverified} (hk : ∀ r ∈ channel.receipt, Kept S C r)
    (h : channel.applyLocked crypto locked = .ok channel')
    (hlocked : ∀ verified, locked.tryVerify crypto channel.key channel.tag = .ok verified →
      C (.locked verified)) : ∀ r ∈ channel'.receipt, Kept S C r := by
  obtain ⟨receipt, verified, uncommitted, hreceipt, hverify, huncommitted, -, rfl⟩ :=
    Channel.applyLocked_eq_ok h
  have hkept := hk receipt hreceipt
  have hlen := Channel.length_lt_of_uncommitted huncommitted hreceipt
  rintro r hr
  obtain rfl := Option.some.inj hr
  exact {
    squash := hkept.squash
    cheques := List.forall_mem_append.mpr
      ⟨hkept.cheques, List.forall_mem_singleton.mpr (hlocked verified hverify)⟩
    short := List.length_append.trans_le hlen }

lemma Kept.applySecret {secret : Secret} (hk : ∀ r ∈ channel.receipt, Kept S C r)
    (h : channel.applySecret crypto secret = .ok channel')
    (hsecret : ∀ secret c, C c → C (Receipt.unlockCheque crypto secret c)) :
    ∀ r ∈ channel'.receipt, Kept S C r := by
  obtain ⟨receipt, hreceipt, rfl⟩ := Channel.applySecret_eq_ok h
  have hkept := hk receipt hreceipt
  rintro r hr
  obtain rfl := Option.some.inj hr
  refine ⟨hkept.squash, fun c hc => ?_, by simpa using hkept.short⟩
  obtain ⟨c', hc', rfl⟩ := List.mem_map.mp hc
  exact hsecret secret c' (hkept.cheques c' hc')

lemma Kept.applySecrets {secrets : List Secret} (hk : ∀ r ∈ channel.receipt, Kept S C r)
    (h : channel.applySecrets crypto secrets = .ok channel')
    (hsecret : ∀ secret c, C c → C (Receipt.unlockCheque crypto secret c)) :
    ∀ r ∈ channel'.receipt, Kept S C r := by
  rw [Channel.applySecrets] at h
  exact Result.foldlM_invariant (P := fun channel => ∀ r ∈ channel.receipt, Kept S C r)
    (fun _ _ _ hk h => Kept.applySecret hk h hsecret) hk h

lemma Kept.changes {request : Request} {old : Value} {keytag : Keytag}
    (hk : ∀ r ∈ old.receipt, Kept S C r)
    (h : request.Changes crypto parseInvoice (old.toChannel keytag) channel)
    (hrequest : request.Carries crypto parseInvoice keytag S C)
    (hsecret : ∀ secret c, C c → C (Receipt.unlockCheque crypto secret c)) :
    ∀ r ∈ channel.receipt, Kept S C r := by
  have hk' : ∀ r ∈ (old.toChannel keytag).receipt, Kept S C r := hk
  cases request with
  | squash doc =>
    obtain ⟨squash, hsquash, happly⟩ := h
    exact Kept.applySquash hk' happly fun verified => hrequest squash verified hsquash
  | pay doc =>
    obtain ⟨body, hbody, happly⟩ := h
    exact Kept.applyLocked hk' happly fun verified => hrequest body verified hbody
  | secrets secrets => exact Kept.applySecrets hk' h hsecret
  | retainers candidates =>
    obtain rfl := Except.ok.inj h
    exact hk

/-- What an entry is read back as is kept where it was before. -/
lemma Kept.fromBytes {value old : Value} (hk : ∀ r ∈ value.receipt, Kept S C r)
    (h : Value.fromBytes value.encode = some old)
    (hwire : ∀ c, C c → C (c.wire.withState .verified)) :
    ∀ r ∈ old.receipt, Kept S C r := by
  rw [Value.fromBytes_encode fun r hr => (hk r hr).short] at h
  split_ifs at h
  obtain rfl := Option.some.inj h
  intro r hr
  obtain ⟨r', hr', rfl⟩ := Option.map_eq_some_iff.mp hr
  have hkept := hk r' hr'
  refine ⟨hkept.squash, fun c hc => ?_, (List.length_map _).trans_le hkept.short⟩
  obtain ⟨c', hc', rfl⟩ := List.mem_map.mp hc
  exact hwire c' (hkept.cheques c' hc')

/-- What the requests of a run carry, every receipt that is written keeps. -/
theorem Kept.run {S : Keytag → Squash .verified → Prop} {store store' : Store}
    {ts : List Transition} (hrun : Run crypto parseInvoice store ts store') (hfresh : store.Fresh)
    (hrequests : ∀ t ∈ ts, t.call.request.Carries crypto parseInvoice t.call.keytag
      (S t.call.keytag) C)
    (hsecret : ∀ secret c, C c → C (Receipt.unlockCheque crypto secret c))
    (hwire : ∀ c, C c → C (c.wire.withState .verified)) :
    (∀ t ∈ ts, ∀ value ∈ t.written, ∀ r ∈ value.receipt, Kept (S t.call.keytag) C r) ∧
      store'.All fun keytag value => ∀ r ∈ value.receipt, Kept (S keytag) C r := by
  let P : Keytag → Value → Prop := fun keytag value => ∀ r ∈ value.receipt, Kept (S keytag) C r
  refine Trace.invariant_of_forall (P := fun ts s =>
    (∀ t ∈ ts, ∀ value ∈ t.written, P t.call.keytag value) ∧ s.All P)
    ⟨by simp, .of_fresh hfresh fun _ _ _ => by simp [P]⟩ ?_ hrun hrequests
  rintro ts s t s' ⟨hwritten, hall⟩ hcarries hserves
  have hdefault : ∀ keytag, P keytag default := fun keytag r hr => by simp [default] at hr
  obtain ⟨hvalue, hall'⟩ := hall.serves hdefault hserves fun hv hread hchanges =>
    Kept.changes (Kept.fromBytes hv hread hwire) hchanges hcarries hsecret
  exact ⟨List.forall_mem_append.mpr ⟨hwritten, List.forall_mem_singleton.mpr hvalue⟩, hall'⟩

end Kept

/-! ### What keeps the store readable -/

section Readable

variable {crypto : Crypto} {parseInvoice : PayBody.ParseInvoice}

/-- An entry whose squash is well-formed and whose timeouts are in whole milliseconds is read
back as it was written. -/
lemma Value.fromBytes_encode_of_kept {value : Value}
    (h : ∀ r ∈ value.receipt, Kept (fun squash => squash.body.WellFormed)
      (fun cheque => cheque.timeout.Canonical) r) :
    Value.fromBytes value.encode = some value :=
  (Value.fromBytes_encode_iff fun r hr => (h r hr).short).mpr
    ⟨fun r hr => (h r hr).squash, fun r hr => (h r hr).cheques⟩

/-- What can be stored is well-formed, and in whole milliseconds. -/
lemma Request.Storable.carries {request : Request} {keytag : Keytag}
    (h : request.Storable parseInvoice) :
    request.Carries crypto parseInvoice keytag (fun squash => squash.body.WellFormed)
      fun cheque => cheque.timeout.Canonical := by
  cases request with
  | squash doc =>
    rintro squash verified hsquash hverify
    rw [(Squash.tryVerify_eq_ok.mp hverify).2]
    exact h squash hsquash
  | pay doc =>
    rintro body verified hbody hverify
    obtain ⟨-, rfl⟩ := Locked.tryVerify_eq_ok.mp hverify
    exact h body hbody
  | secrets secrets => trivial
  | retainers candidates => trivial

/-- Requests in CBOR carry what can be stored. -/
lemma Request.storable_of_cbor (b : Bytes) :
    (squash (.cbor b)).Storable parseInvoice ∧ (pay (.cbor b)).Storable parseInvoice := by
  constructor
  · intro squash h
    obtain ⟨⟨squash', b'⟩, hdecode, rfl⟩ := Option.map_eq_some_iff.mp h
    exact Squash.wellFormed_of_decode hdecode
  · exact fun body h => PayBody.canonical_of_cbor h

/-- **Reading back.**  In every run from a fresh store in which the squashes are well-formed
and the timeouts in whole milliseconds, each value that is written is read back the same, and
no entry of the store that is reached fails to be read. -/
theorem entries_read_back {store store' : Store} {ts : List Transition}
    (hrun : Run crypto parseInvoice store ts store') (hfresh : store.Fresh)
    (hrequests : ∀ t ∈ ts, t.call.request.Storable parseInvoice) :
    (∀ t ∈ ts, ∀ value ∈ t.written, Value.fromBytes value.encode = some value ∧
        ∀ r ∈ value.receipt, r.squash.body.WellFormed) ∧
      ∀ keytag bytes, store' keytag = some bytes → ∃ value, Value.fromBytes bytes = some value := by
  have hsecret : ∀ secret (c : Cheque .verified), c.timeout.Canonical →
      (Receipt.unlockCheque crypto secret c).timeout.Canonical := fun secret c hc => by
    rwa [Receipt.timeout_unlockCheque]
  have hwire : ∀ c : Cheque .verified, c.timeout.Canonical →
      (c.wire.withState .verified).timeout.Canonical := fun c _ => c.canonical_wire _
  obtain ⟨hwritten, hall⟩ := Kept.run (S := fun _ squash => squash.body.WellFormed)
    (C := fun cheque => cheque.timeout.Canonical) hrun hfresh
    (fun t ht => (hrequests t ht).carries) hsecret hwire
  constructor
  · intro t ht value hvalue
    have hkept := hwritten t ht value hvalue
    exact ⟨Value.fromBytes_encode_of_kept hkept, fun r hr => (hkept r hr).squash⟩
  · intro keytag bytes hbytes
    obtain ⟨value, rfl, hkept⟩ := hall keytag bytes hbytes
    exact ⟨value, Value.fromBytes_encode_of_kept hkept⟩

/-! ### What is read in a run -/

/-- The receipts that the server reads in the runs from a fresh store. -/
def Reachable (crypto : Crypto) (parseInvoice : PayBody.ParseInvoice) (keytag : Keytag)
    (receipt : Receipt) : Prop :=
  ∃ store ts store' channel, store.Fresh ∧ Run crypto parseInvoice store ts store' ∧
    store'.get keytag = .ok channel ∧ channel.receipt = some receipt

/-- The squash of a receipt that is read is well-formed, and the consumer's. -/
theorem Reachable.squash {keytag : Keytag} {receipt : Receipt}
    (h : Reachable crypto parseInvoice keytag receipt) :
    receipt.squash.body.WellFormed ∧
      (receipt.squash.withState .unverified).tryVerify crypto keytag.key keytag.tag =
        .ok receipt.squash := by
  obtain ⟨store, ts, store', channel, hfresh, hrun, hget, hreceipt⟩ := h
  obtain ⟨bytes, old, hbytes, hread, rfl⟩ := Store.get_eq_ok.mp hget
  have hcarries : ∀ t ∈ ts, t.call.request.Carries crypto parseInvoice t.call.keytag
      (fun squash => (squash.withState .unverified).tryVerify crypto t.call.keytag.key
        t.call.keytag.tag = .ok squash) fun _ => True := by
    intro t _
    cases t.call.request with
    | squash doc =>
      rintro squash verified - hverify
      obtain ⟨hsigned, rfl⟩ := Squash.tryVerify_eq_ok.mp hverify
      exact Squash.tryVerify_eq_ok.mpr ⟨hsigned, rfl⟩
    | pay doc => exact fun _ _ _ _ => trivial
    | secrets secrets => trivial
    | retainers candidates => trivial
  obtain ⟨-, hall⟩ := Kept.run (S := fun keytag squash => (squash.withState .unverified).tryVerify
    crypto keytag.key keytag.tag = .ok squash) hrun hfresh hcarries (fun _ _ _ => trivial)
    fun _ _ => trivial
  -- an entry that is read has a well-formed squash
  obtain ⟨value, rfl, hkept⟩ := hall keytag bytes hbytes
  have hverify := Kept.fromBytes hkept hread (fun _ _ => trivial) receipt hreceipt
  rw [Value.fromBytes_encode fun r hr => (hkept r hr).short] at hread
  split_ifs at hread with hwf
  obtain rfl := Option.some.inj hread
  obtain ⟨r, hr, rfl⟩ := Option.map_eq_some_iff.mp hreceipt
  exact ⟨hwf r hr, hverify.squash⟩

/-- An entry is read back right after it is written. -/
lemma Store.get_update {store : Store} {keytag : Keytag} {value : Value} (h : value.Storable)
    (hshort : value.Short) :
    Store.get (Function.update store keytag (some value.encode)) keytag =
      .ok (value.toChannel keytag) :=
  Store.get_eq_ok.mpr ⟨_, value, Function.update_self _ _ _,
    (Value.fromBytes_encode_iff hshort).mpr h, rfl⟩

end Readable

namespace Sample

/-- A key of zero bytes and the empty tag. -/
def keytag : Keytag := ⟨⟨BytesN.fill 32 0⟩, ⟨[]⟩⟩

/-- The entry of the channel, with this receipt. -/
def value (receipt : Option Receipt) : Value := ⟨some retainer, receipt, ⟨true⟩⟩

/-- The table with this entry only. -/
def store (receipt : Option Receipt) : Store :=
  Function.update (fun _ => none) keytag (some (value receipt).encode)

/-- A squash that excludes an index above its own. -/
def illFormed : Squash .unverified := ⟨⟨0, 1, ⟨[2]⟩⟩, ⟨BytesN.fill 64 0⟩⟩

/-- The null squash, with a signature of zero bytes. -/
def nullSquash : Squash .unverified := ⟨.zero, ⟨BytesN.fill 64 0⟩⟩

lemma store_fresh : (store none).Fresh := by
  intro k bytes hbytes
  rcases eq_or_ne k keytag with rfl | hne
  · rw [store, Function.update_self] at hbytes
    exact ⟨some retainer, ⟨true⟩, (Option.some.inj hbytes).symm⟩
  · simp [store, Function.update_of_ne hne] at hbytes

/-- A request that changes the receipt is served. -/
lemma serves {parseInvoice : PayBody.ParseInvoice} {receipt receipt' : Option Receipt}
    {request : Request} (h : (value receipt).Storable) (hshort : (value receipt).Short)
    (hchanges : request.Changes .noCrypto parseInvoice ((value receipt).toChannel keytag)
      ((value receipt').toChannel keytag))
    (halign : ∀ doc, request = .pay doc → ∀ body, PayBody.unmediate parseInvoice doc = some body →
      ∃ r, alignCommitments id .zero body.locked body.invoice = .ok r) :
    Serves .noCrypto parseInvoice (store receipt)
      ⟨⟨keytag, request, .zero, id⟩, some (value receipt')⟩ (store receipt') := by
  have hget : (store receipt).get keytag = .ok ((value receipt).toChannel keytag) :=
    Store.get_update h hshort
  have hserves := @Serves.of_changes .noCrypto parseInvoice _ ⟨keytag, request, .zero, id⟩ _ _ hget
    hchanges halign
  rwa [store, Function.update_idem] at hserves

/-- The first squash that a channel's consumer sends, whatever it excludes. -/
lemma run_squash (parseInvoice : PayBody.ParseInvoice) (squash : Squash .unverified) :
    Run .noCrypto parseInvoice (store none)
      [⟨⟨keytag, .squash (.json squash.toJson), .zero, id⟩,
        some (value (some (.new (squash.withState .verified))))⟩]
      (store (some (.new (squash.withState .verified)))) :=
  Trace.snoc .nil <| serves ⟨by simp [value], by simp [value]⟩ (by simp [Value.Short, value])
    ⟨squash, squash.ofJson_toJson, rfl⟩ (by simp)

/-! A cheque, and its secret -/

/-- A secret of zero bytes. -/
def secret : Secret := ⟨BytesN.fill 32 0⟩

/-- An invoice to the lock of the secret. -/
def hashed : Bln.Invoice := ⟨[], 500, Crypto.zeroLock⟩

/-- Every text is this invoice. -/
def parseInvoice : PayBody.ParseInvoice := fun _ => some hashed

/-- A payment for a cheque over this amount. -/
def payBody (amount : UInt64) : PayBody :=
  ⟨⟨1, amount, .fromSecs 100_000, ⟨Crypto.zeroLock⟩⟩, ⟨BytesN.fill 64 0⟩, hashed⟩

/-- The null squash, with these cheques. -/
def receiptWith (cheques : List (Cheque .verified)) : Receipt :=
  ⟨nullSquash.withState .verified, cheques⟩

/-- The cheque, locked. -/
def locked (amount : UInt64) : Receipt :=
  receiptWith [.locked ⟨(payBody amount).chequeBody, ⟨BytesN.fill 64 0⟩⟩]

/-- The cheque, once the secret is known. -/
def unlocked (amount : UInt64) : Receipt :=
  receiptWith [.unlocked ⟨{ (payBody amount).chequeBody with latch := secret }, ⟨BytesN.fill 64 0⟩⟩]

lemma storable {cheques : List (Cheque .verified)} (h : ∀ c ∈ cheques, c.timeout.Canonical) :
    (value (some (receiptWith cheques))).Storable := by
  refine ⟨?_, ?_⟩
  · rintro r hr
    obtain rfl := Option.some.inj hr
    exact SquashBody.wellFormed_zero
  · rintro r hr
    obtain rfl := Option.some.inj hr
    exact h

lemma short {cheques : List (Cheque .verified)} (h : cheques.length ≤ maxUnsquashed) :
    (value (some (receiptWith cheques))).Short := by
  rintro r hr
  obtain rfl := Option.some.inj hr
  exact h

/-- The entry with these cheques is read back. -/
lemma get_store {cheques : List (Cheque .verified)} (h : ∀ c ∈ cheques, c.timeout.Canonical)
    (hlen : cheques.length ≤ maxUnsquashed) :
    (store (some (receiptWith cheques))).get keytag =
      .ok ((value (some (receiptWith cheques))).toChannel keytag) :=
  Store.get_update (storable h) (short hlen)

lemma unmediate_payBody (amount : UInt64) :
    PayBody.unmediate parseInvoice (.json ((payBody amount).toJson "lnbc")) =
      some (payBody amount) :=
  PayBody.unmediate_toJson rfl

/-- A first squash, a cheque, and its secret. -/
def toUnlocked (amount : UInt64) : List Transition :=
  [⟨⟨keytag, .squash (.json nullSquash.toJson), .zero, id⟩, some (value (some (receiptWith [])))⟩,
    ⟨⟨keytag, .pay (.json ((payBody amount).toJson "lnbc")), .zero, id⟩,
      some (value (some (locked amount)))⟩,
    ⟨⟨keytag, .secrets [secret], .zero, id⟩, some (value (some (unlocked amount)))⟩]

/-- The cheque is taken where the channel has the amount, and the payment can be aligned. -/
lemma run_unlocked {amount : UInt64}
    (hlocked : ((value (some (receiptWith []))).toChannel keytag).applyLocked .noCrypto
      (payBody amount).locked = .ok ((value (some (locked amount))).toChannel keytag))
    (halign : ∃ r, alignCommitments id .zero (payBody amount).locked hashed = .ok r) :
    Run .noCrypto parseInvoice (store none) (toUnlocked amount)
      (store (some (unlocked amount))) := by
  have hpay : Serves .noCrypto parseInvoice (store (some (receiptWith [])))
      ⟨⟨keytag, .pay (.json ((payBody amount).toJson "lnbc")), .zero, id⟩,
        some (value (some (locked amount)))⟩ (store (some (locked amount))) := by
    refine serves (storable (by simp)) (short (by simp))
      ⟨payBody amount, unmediate_payBody amount, hlocked⟩ fun doc hdoc body hbody => ?_
    obtain rfl := Request.pay.inj hdoc
    obtain rfl := Option.some.inj ((unmediate_payBody amount).symm.trans hbody)
    exact halign
  have htimeout : (Duration.fromSecs 100_000).Canonical := by decide
  have hsecret : Serves .noCrypto parseInvoice (store (some (locked amount)))
      ⟨⟨keytag, .secrets [secret], .zero, id⟩, some (value (some (unlocked amount)))⟩
      (store (some (unlocked amount))) :=
    serves (storable (List.forall_mem_singleton.mpr htimeout)) (short (by simp [maxUnsquashed])) rfl
      (by simp)
  exact .snoc (.snoc (run_squash _ nullSquash) hpay) hsecret

end Sample

/-- After the null squash, in JSON, the entry is read back. -/
theorem entry_kept :
    ∃ ts store', Run .noCrypto (fun _ => none) (Sample.store none) ts store' ∧ ts ≠ [] ∧
      (∀ t ∈ ts, ∀ value ∈ t.written, Value.fromBytes value.encode = some value ∧
        ∀ r ∈ value.receipt, r.squash.body.WellFormed) ∧
      ∀ keytag bytes, store' keytag = some bytes → ∃ value, Value.fromBytes bytes = some value := by
  have hrun := Sample.run_squash (fun _ => none) Sample.nullSquash
  refine ⟨_, _, hrun, by simp, entries_read_back hrun Sample.store_fresh ?_⟩
  intro t ht
  obtain rfl := List.mem_singleton.mp ht
  intro squash hsquash
  obtain rfl := Option.some.inj (hsquash.symm.trans Sample.nullSquash.ofJson_toJson)
  exact SquashBody.wellFormed_zero

/-- After one squash in JSON that excludes an index above its own, the entry cannot be read. -/
theorem entry_lost :
    (Sample.store none).Fresh ∧ ∃ ts store',
      Run .noCrypto (fun _ => none) (Sample.store none) ts store' ∧
        ∃ bytes, store' Sample.keytag = some bytes ∧ Value.fromBytes bytes = none := by
  refine ⟨Sample.store_fresh, _, _, Sample.run_squash _ Sample.illFormed, _,
    Function.update_self _ _ _, ?_⟩
  rw [Value.fromBytes_encode (by simp [Value.Short, Sample.value, Receipt.new, maxUnsquashed]),
    if_neg]
  intro h
  exact absurd (h _ rfl) (by decide)

end Konduit.Server
