import Mathlib.Logic.Function.Basic
import Konduit.Lib.Bytes
import Konduit.Lib.Trace

/-!
# Revealing secrets

The secret of a payment is known once the payment has settled.  The client polls the node for
settled payments above a cursor, and caches what it gets; a secret is looked up in the cache.
Payments do not settle in the order of their indexes, so the cursor may pass a payment before it
settles.  The module shows when no settled payment is missed (`reveal_settled`), whatever the
interleaving of the node with calls of `reveal`, and what is missed otherwise (`missed_of_le`).
-/

open Lib

namespace Konduit.Bln

/-! ### The node -/

/-- A payment as the node lists it. -/
structure Payment where
  paymentHash : BytesN 32
  paymentPreimage : Option (BytesN 32)
  paymentIndex : ℕ
deriving DecidableEq

/-- A query for payments from an index on. -/
structure PaymentsRequest where
  includeIncomplete : Bool
  indexOffset : Option ℕ
deriving DecidableEq

/-- The payments found, and the last index among them. -/
structure PaymentsResponse where
  payments : List Payment
  lastIndexOffset : ℕ
deriving DecidableEq

/-- How far a payment has come. -/
inductive PaymentStatus where
  | inFlight
  | succeeded (preimage : BytesN 32)
  | failed
deriving DecidableEq

/-- A payment as the node keeps it. -/
structure Outgoing where
  paymentHash : BytesN 32
  paymentIndex : ℕ
  status : PaymentStatus
deriving DecidableEq

/-- What the node answers of a payment. -/
def Outgoing.toPayment (self : Outgoing) : Payment where
  paymentHash := self.paymentHash
  paymentPreimage :=
    match self.status with
    | .succeeded preimage => some preimage
    | .inFlight | .failed => none
  paymentIndex := self.paymentIndex

/-- The answer carries a preimage. -/
def Outgoing.isSettled (self : Outgoing) : Bool := self.toPayment.paymentPreimage.isSome

/-- The payments, in the order of their indexes. -/
abbrev Node := List Outgoing

namespace Node

/-- The payments whose preimages the node knows. -/
def settled (self : Node) : List Payment :=
  (self.filter Outgoing.isSettled).map Outgoing.toPayment

/-- List the payments above an index, all of them or those that have settled. -/
def listPayments (self : Node) (request : PaymentsRequest) : PaymentsResponse :=
  let payments := (self.filter fun p =>
    (request.includeIncomplete || p.isSettled) && request.indexOffset.getD 0 < p.paymentIndex).map
      Outgoing.toPayment
  ⟨payments, (payments.getLast?.map Payment.paymentIndex).getD 0⟩

/-- A new payment has an index above all others. -/
def create (self : Node) (index : ℕ) (hash : BytesN 32) : Option Node :=
  if 0 < index ∧ ∀ p ∈ self, p.paymentIndex < index then
    some (self ++ [⟨hash, index, .inFlight⟩])
  else none

/-- A payment in flight settles or fails. -/
def resolve (self : Node) (index : ℕ) (status : PaymentStatus) : Option Node :=
  if ∃ p ∈ self, p.paymentIndex = index ∧ p.status = .inFlight then
    some (self.map fun p =>
      if p.paymentIndex = index ∧ p.status = .inFlight then { p with status } else p)
  else none

end Node

/-! ### The client -/

/-- Preimages, with the indexes of their payments, by hash. -/
abbrev LookupTable := Std.TreeMap (BytesN 32) (BytesN 32 × ℕ)

/-- Take the payments that have a preimage. -/
def LookupTable.insertAll (self : LookupTable) (payments : List Payment) : LookupTable :=
  payments.foldl (fun cache p =>
    match p.paymentPreimage with
    | some preimage => cache.insert p.paymentHash (preimage, p.paymentIndex)
    | none => cache) self

/-- What the client keeps between calls, and its limit. -/
structure Client where
  maxCacheSize : ℕ
  lookupTable : LookupTable
  lastCacheUpdate : ℕ

namespace Client

/-- The preimage that is kept of a lock. -/
def lookup (self : Client) (lock : BytesN 32) : Option (BytesN 32) :=
  self.lookupTable[lock]?.map Prod.fst

/-- What is asked of the node when the cache has no answer. -/
def request (self : Client) : PaymentsRequest := ⟨false, some self.lastCacheUpdate⟩

/-- Entries below this index are dropped when there are too many. -/
def threshold (self : Client) (res : PaymentsResponse) : ℕ :=
  res.lastIndexOffset - self.maxCacheSize / 2

/-- Take an answer of the node. -/
def update (self : Client) (res : PaymentsResponse) : Client :=
  let cache := self.lookupTable.insertAll res.payments
  { self with
    lookupTable :=
      if cache.size > self.maxCacheSize then cache.filter fun _ v => v.2 ≥ self.threshold res
      else cache
    lastCacheUpdate := res.lastIndexOffset }

end Client

/-! ### The node and the calls -/

/-- A call of `reveal`: it looks up the cache, asks the node, takes the answer. -/
inductive Call where
  | idle
  | waiting (lock : BytesN 32)
  | answered (lock : BytesN 32) (res : PaymentsResponse)
  | returned (lock : BytesN 32) (secret : Option (BytesN 32))
  | failed
deriving DecidableEq

/-- A node, its client, and the calls that are under way. -/
structure System where
  node : Node
  client : Client
  calls : ℕ → Call

/-- What the node does to a payment, or what a call does next. -/
inductive Event where
  | create (index : ℕ) (hash : BytesN 32)
  | settle (index : ℕ) (preimage : BytesN 32)
  | fail (index : ℕ)
  | reveal (call : ℕ) (lock : BytesN 32)
  | request (call : ℕ)
  /-- The request fails, and the call with it. -/
  | lost (call : ℕ)
  | update (call : ℕ)

namespace System

/-- No payments, and a client that has just been started. -/
def init (maxCacheSize : ℕ) : System := ⟨[], ⟨maxCacheSize, ∅, 0⟩, fun _ => .idle⟩

/-- The system with this call elsewhere. -/
def setCall (self : System) (call : ℕ) (phase : Call) : System :=
  { self with calls := Function.update self.calls call phase }

/-- What an event makes of the system, where it can happen. -/
def step (self : System) : Event → Option System
  | .create index hash => (self.node.create index hash).map fun node => { self with node }
  | .settle index preimage =>
    (self.node.resolve index (.succeeded preimage)).map fun node => { self with node }
  | .fail index => (self.node.resolve index .failed).map fun node => { self with node }
  | .reveal call lock =>
    match self.calls call with
    | .idle =>
      match self.client.lookup lock with
      | some secret => some (self.setCall call (.returned lock (some secret)))
      | none => some (self.setCall call (.waiting lock))
    | _ => none
  | .request call =>
    match self.calls call with
    | .waiting lock =>
      some (self.setCall call (.answered lock (self.node.listPayments self.client.request)))
    | _ => none
  | .lost call =>
    match self.calls call with
    | .waiting _ => some (self.setCall call .failed)
    | _ => none
  | .update call =>
    match self.calls call with
    | .answered lock res =>
      let client := self.client.update res
      some ({ self with client }.setCall call (.returned lock (client.lookup lock)))
    | _ => none

end System

/-! ### What settles -/

section Settled

variable {node node' : Node} {p : Payment}

lemma Node.mem_settled : p ∈ node.settled ↔ ∃ o ∈ node, o.isSettled = true ∧ o.toPayment = p := by
  simp [settled, and_assoc]

lemma Node.settled_create {index : ℕ} {hash : BytesN 32}
    (h : node.create index hash = some node') : node'.settled = node.settled := by
  rw [create] at h
  split_ifs at h
  obtain rfl := Option.some.inj h
  simp [settled, Outgoing.isSettled, Outgoing.toPayment]

/-- What has settled stays as it is, and only the payment that is resolved may settle. -/
lemma Node.settled_resolve {index : ℕ} {status : PaymentStatus}
    (h : node.resolve index status = some node') :
    (∀ p ∈ node.settled, p ∈ node'.settled) ∧ ∀ p ∈ node'.settled, p ∈ node.settled ∨
      p.paymentIndex = index ∧ ∃ preimage, status = .succeeded preimage := by
  rw [resolve] at h
  split_ifs at h
  obtain rfl := Option.some.inj h
  simp only [mem_settled, List.mem_map]
  constructor
  · rintro p ⟨o, ho, hsettled, rfl⟩
    have hflight : o.status ≠ .inFlight := fun hflight => by
      simp [Outgoing.isSettled, Outgoing.toPayment, hflight] at hsettled
    exact ⟨o, ⟨o, ho, by simp [hflight]⟩, hsettled, rfl⟩
  · rintro p ⟨o', ⟨o, ho, rfl⟩, hsettled, rfl⟩
    split_ifs at hsettled ⊢ with hresolved
    · right
      refine ⟨hresolved.1, ?_⟩
      cases status with
      | succeeded preimage => exact ⟨preimage, rfl⟩
      | inFlight => simp [Outgoing.isSettled, Outgoing.toPayment] at hsettled
      | failed => simp [Outgoing.isSettled, Outgoing.toPayment] at hsettled
    · exact Or.inl ⟨o, ho, hsettled, rfl⟩

lemma Node.exists_preimage (h : p ∈ node.settled) :
    ∃ preimage, p.paymentPreimage = some preimage := by
  obtain ⟨o, -, hsettled, rfl⟩ := mem_settled.mp h
  exact Option.isSome_iff_exists.mp hsettled

/-- The client is answered with the payments that have settled above its cursor. -/
lemma Node.mem_listPayments {client : Client} :
    p ∈ (node.listPayments client.request).payments ↔
      p ∈ node.settled ∧ client.lastCacheUpdate < p.paymentIndex := by
  simp only [listPayments, Client.request, Bool.false_or, Option.getD_some, List.mem_map,
    List.mem_filter, Bool.and_eq_true, mem_settled]
  constructor
  · rintro ⟨o, ⟨ho, hsettled, hlt⟩, rfl⟩
    exact ⟨⟨o, ho, hsettled, rfl⟩, of_decide_eq_true hlt⟩
  · rintro ⟨⟨o, ho, hsettled, rfl⟩, hlt⟩
    exact ⟨o, ⟨ho, hsettled, decide_eq_true hlt⟩, rfl⟩

end Settled

/-! ### What is cached -/

section Cache

variable {cache : LookupTable} {payments : List Payment} {lock : BytesN 32}
  {v : BytesN 32 × ℕ} {client : Client} {res : PaymentsResponse}

namespace LookupTable

lemma insertAll_cons (p : Payment) :
    cache.insertAll (p :: payments) = (cache.insertAll [p]).insertAll payments := rfl

lemma mem_insertAll :
    lock ∈ cache.insertAll payments ↔
      lock ∈ cache ∨ ∃ p ∈ payments, p.paymentHash = lock ∧ p.paymentPreimage.isSome = true := by
  induction payments generalizing cache with
  | nil => simp [insertAll]
  | cons p payments ih =>
    have hone : lock ∈ cache.insertAll [p] ↔
        lock ∈ cache ∨ p.paymentHash = lock ∧ p.paymentPreimage.isSome = true := by
      cases hpreimage : p.paymentPreimage with
      | none => simp [insertAll, hpreimage]
      | some preimage =>
        simp only [insertAll, List.foldl_cons, List.foldl_nil, hpreimage, Std.TreeMap.mem_insert,
          Std.LawfulEqCmp.compare_eq_iff_eq, Option.isSome_some, and_true]
        exact or_comm
    rw [insertAll_cons, ih, hone, or_assoc, List.exists_mem_cons_iff]

/-- An entry was there before, or is that of a payment. -/
lemma of_getElem?_insertAll (h : (cache.insertAll payments)[lock]? = some v) :
    cache[lock]? = some v ∨ ∃ p ∈ payments, p.paymentHash = lock ∧
      p.paymentPreimage = some v.1 ∧ p.paymentIndex = v.2 := by
  induction payments generalizing cache with
  | nil => exact Or.inl h
  | cons p payments ih =>
    rw [insertAll_cons] at h
    rcases ih h with hone | ⟨q, hq, hpayment⟩
    · cases hpreimage : p.paymentPreimage with
      | none => exact Or.inl (by simpa [insertAll, hpreimage] using hone)
      | some preimage =>
        simp only [insertAll, List.foldl_cons, List.foldl_nil, hpreimage,
          Std.TreeMap.getElem?_insert, Std.LawfulEqCmp.compare_eq_iff_eq] at hone
        split_ifs at hone with hlock
        · obtain rfl := Option.some.inj hone
          exact Or.inr ⟨p, List.mem_cons_self, hlock, hpreimage, rfl⟩
        · exact Or.inl hone
    · exact Or.inr ⟨q, List.mem_cons_of_mem _ hq, hpayment⟩

end LookupTable

/-- The answer leaves the cache within its limit, or no entry of it falls below the
threshold. -/
def Client.Room (self : Client) (res : PaymentsResponse) : Prop :=
  (self.lookupTable.insertAll res.payments).size ≤ self.maxCacheSize ∨
    ∀ (lock : BytesN 32) (v : BytesN 32 × ℕ),
      (self.lookupTable.insertAll res.payments)[lock]? = some v → self.threshold res ≤ v.2

/-- Where there is room nothing is dropped. -/
lemma Client.getElem?_update (h : client.Room res) :
    (client.update res).lookupTable[lock]? =
      (client.lookupTable.insertAll res.payments)[lock]? := by
  simp only [update]
  split_ifs with hsize
  · have hkeeps := h.resolve_left (Nat.not_le.mpr hsize)
    rw [Std.TreeMap.getElem?_filter]
    cases hv : (client.lookupTable.insertAll res.payments)[lock]? with
    | none => simp
    | some v => simpa using hkeeps lock v hv
  · rfl

lemma Client.mem_update (h : client.Room res) :
    lock ∈ (client.update res).lookupTable ↔ lock ∈ client.lookupTable ∨
      ∃ p ∈ res.payments, p.paymentHash = lock ∧ p.paymentPreimage.isSome = true := by
  rw [← LookupTable.mem_insertAll, Std.TreeMap.mem_iff_isSome_getElem?,
    Std.TreeMap.mem_iff_isSome_getElem?, getElem?_update h]

/-- A settled payment is cached when it was before, or is in the answer. -/
lemma Client.mem_update_of_settled {node : Node} {p : Payment} (h : client.Room res)
    (hp : p ∈ node.settled) (hmem : p.paymentHash ∈ client.lookupTable ∨ p ∈ res.payments) :
    p.paymentHash ∈ (client.update res).lookupTable := by
  refine (mem_update h).mpr (hmem.imp_right fun hres => ?_)
  obtain ⟨preimage, hpreimage⟩ := Node.exists_preimage hp
  exact ⟨p, hres, rfl, by rw [hpreimage, Option.isSome_some]⟩

lemma Client.mem_of_mem_update (h : lock ∈ (client.update res).lookupTable) :
    lock ∈ client.lookupTable.insertAll res.payments := by
  simp only [update] at h
  split_ifs at h
  · exact (Std.TreeMap.mem_filter.mp h).choose
  · exact h

lemma Client.mem_iff_lookup :
    lock ∈ client.lookupTable ↔ (client.lookup lock).isSome = true := by
  rw [Std.TreeMap.mem_iff_isSome_getElem?, lookup, Option.isSome_map]

end Cache

/-! ### Steps -/

/-- The steps of the system, one by one. -/
inductive System.Moves (s : System) : Event → System → Prop
  | node {event : Event} {node : Node} (hold : ∀ p ∈ s.node.settled, p ∈ node.settled)
      (hnew : ∀ p ∈ node.settled, p ∈ s.node.settled ∨
        ∃ preimage, event = .settle p.paymentIndex preimage) : Moves s event { s with node }
  | hit {call : ℕ} {lock secret : BytesN 32} (hcall : s.calls call = .idle)
      (hlookup : s.client.lookup lock = some secret) :
      Moves s (.reveal call lock) (s.setCall call (.returned lock (some secret)))
  | miss {call : ℕ} {lock : BytesN 32} (hcall : s.calls call = .idle)
      (hlookup : s.client.lookup lock = none) :
      Moves s (.reveal call lock) (s.setCall call (.waiting lock))
  | request {call : ℕ} {lock : BytesN 32} (hcall : s.calls call = .waiting lock) :
      Moves s (.request call)
        (s.setCall call (.answered lock (s.node.listPayments s.client.request)))
  | lost {call : ℕ} {lock : BytesN 32} (hcall : s.calls call = .waiting lock) :
      Moves s (.lost call) (s.setCall call .failed)
  | update {call : ℕ} {lock : BytesN 32} {res : PaymentsResponse}
      (hcall : s.calls call = .answered lock res) :
      Moves s (.update call) ({ s with client := s.client.update res }.setCall call
        (.returned lock ((s.client.update res).lookup lock)))

lemma System.moves_of_step {s s' : System} {event : Event} (h : s.step event = some s') :
    s.Moves event s' := by
  cases event with
  | create index hash =>
    obtain ⟨node, hnode, rfl⟩ := Option.map_eq_some_iff.mp h
    have heq := Node.settled_create hnode
    exact .node (fun p hp => heq ▸ hp) fun p hp => Or.inl (heq ▸ hp)
  | settle index preimage =>
    obtain ⟨node, hnode, rfl⟩ := Option.map_eq_some_iff.mp h
    obtain ⟨hold, hnew⟩ := Node.settled_resolve hnode
    refine .node hold fun p hp => (hnew p hp).imp_right ?_
    rintro ⟨rfl, -⟩
    exact ⟨preimage, rfl⟩
  | fail index =>
    obtain ⟨node, hnode, rfl⟩ := Option.map_eq_some_iff.mp h
    obtain ⟨hold, hnew⟩ := Node.settled_resolve hnode
    refine .node hold fun p hp => (hnew p hp).imp_right ?_
    rintro ⟨-, preimage, hstatus⟩
    cases hstatus
  | reveal call lock =>
    simp only [step] at h
    split at h
    · rename_i hcall
      split at h <;> obtain rfl := Option.some.inj h
      · rename_i secret hlookup
        exact .hit hcall hlookup
      · rename_i hlookup
        exact .miss hcall hlookup
    · cases h
  | request call =>
    simp only [step] at h
    split at h
    · rename_i lock hcall
      obtain rfl := Option.some.inj h
      exact .request hcall
    · cases h
  | lost call =>
    simp only [step] at h
    split at h
    · rename_i lock hcall
      obtain rfl := Option.some.inj h
      exact .lost hcall
    · cases h
  | update call =>
    simp only [step] at h
    split at h
    · rename_i lock res hcall
      obtain rfl := Option.some.inj h
      exact .update hcall
    · cases h

/-- The runs of the system. -/
abbrev System.Run : System → List Event → System → Prop :=
  Trace fun s event s' => s.step event = some s'

/-- A payment settles above the cursor, and above every answer that is on its way; an answer
makes no entry be dropped. -/
def Event.Keeps (s : System) : Event → Prop
  | .settle index _ => s.client.lastCacheUpdate < index ∧
      ∀ call lock res, s.calls call = .answered lock res → res.lastIndexOffset < index
  | .update call => ∀ lock res, s.calls call = .answered lock res → s.client.Room res
  | _ => True

/-- The runs in which every step is one of these. -/
abbrev System.KeepingRun : System → List Event → System → Prop :=
  Trace fun s event s' => event.Keeps s ∧ s.step event = some s'

/-- A call that begins after a payment has settled does not return anything but its
preimage. -/
def Reveals (s s' : System) : Prop :=
  ∀ p ∈ s.node.settled, ∀ call, s.calls call = .idle → ∀ secret,
    s'.calls call = .returned p.paymentHash secret →
    (∀ q ∈ s'.node.settled, q.paymentHash = p.paymentHash →
      q.paymentPreimage = p.paymentPreimage) →
    ∃ preimage, p.paymentPreimage = some preimage ∧ secret = some preimage

/-! ### What a run keeps -/

/-- Each settled payment is cached, among the payments of an answer, or above it. -/
def Covers (settled : List Payment) (cache : LookupTable) (payments : List Payment)
    (last : ℕ) : Prop :=
  ∀ p ∈ settled, p.paymentHash ∈ cache ∨ p ∈ payments ∨ last < p.paymentIndex

/-- What is cached has settled, and nothing that has settled is skipped, neither by the cursor
nor by an answer that is on its way. -/
structure Inv (s : System) : Prop where
  cached : ∀ (lock : BytesN 32) (v : BytesN 32 × ℕ), s.client.lookupTable[lock]? = some v →
    ∃ p ∈ s.node.settled, p.paymentHash = lock ∧ p.paymentPreimage = some v.1
  cursor : Covers s.node.settled s.client.lookupTable [] s.client.lastCacheUpdate
  answers : ∀ call lock res, s.calls call = .answered lock res →
    (∀ p ∈ res.payments, p ∈ s.node.settled) ∧
      Covers s.node.settled s.client.lookupTable res.payments res.lastIndexOffset

namespace Covers

variable {settled settled' payments : List Payment} {cache cache' : LookupTable} {last : ℕ}

lemma mono (h : Covers settled cache payments last)
    (hcache : ∀ lock, lock ∈ cache → lock ∈ cache') : Covers settled cache' payments last :=
  fun p hp => (h p hp).imp_left (hcache _)

/-- What settles settles above. -/
lemma settle (h : Covers settled cache payments last)
    (hnew : ∀ p ∈ settled', p ∈ settled ∨ last < p.paymentIndex) :
    Covers settled' cache payments last := by
  intro p hp
  rcases hnew p hp with hold | hlt
  · exact h p hold
  · exact Or.inr (Or.inr hlt)

/-- Once they are cached, the payments of an answer need not be kept. -/
lemma write (h : Covers settled cache payments last)
    (hcache : ∀ p ∈ settled, p.paymentHash ∈ cache ∨ p ∈ payments → p.paymentHash ∈ cache') :
    Covers settled cache' [] last := by
  intro p hp
  rcases h p hp with hmem | hmem | hlt
  · exact Or.inl (hcache p hp (Or.inl hmem))
  · exact Or.inl (hcache p hp (Or.inr hmem))
  · exact Or.inr (Or.inr hlt)

end Covers

section Run

variable {s s' : System} {event : Event} {call : ℕ} {lock : BytesN 32} {phase : Call}
  {res : PaymentsResponse} {p : Payment}

lemma System.calls_setCall (s : System) (call call' : ℕ) (phase : Call) :
    (s.setCall call phase).calls call' = if call' = call then phase else s.calls call' :=
  Function.update_apply _ _ _ _

@[simp] lemma System.calls_setCall_self (s : System) (call : ℕ) (phase : Call) :
    (s.setCall call phase).calls call = phase := Function.update_self _ _ _

lemma inv_init (maxCacheSize : ℕ) : Inv (.init maxCacheSize) where
  cached lock v hv := by simp [System.init] at hv
  cursor p hp := by simp [System.init, Node.settled] at hp
  answers call lock res hcall := by simp [System.init] at hcall

lemma Inv.setCall (h : Inv s) (hphase : ∀ lock res, phase = .answered lock res →
    (∀ p ∈ res.payments, p ∈ s.node.settled) ∧
      Covers s.node.settled s.client.lookupTable res.payments res.lastIndexOffset) :
    Inv (s.setCall call phase) := by
  refine ⟨h.cached, h.cursor, fun call' lock res hcall => ?_⟩
  rw [System.calls_setCall] at hcall
  split_ifs at hcall
  · exact hphase lock res hcall
  · exact h.answers call' lock res hcall

/-- An answer of the node skips nothing that is not cached. -/
lemma Inv.covers_listPayments (h : Inv s) (last : ℕ) :
    Covers s.node.settled s.client.lookupTable
      (s.node.listPayments s.client.request).payments last := by
  intro p hp
  rcases h.cursor p hp with hmem | hmem | hlt
  · exact Or.inl hmem
  · exact absurd hmem List.not_mem_nil
  · exact Or.inr (Or.inl (Node.mem_listPayments.mpr ⟨hp, hlt⟩))

/-- With an answer, what it skips becomes what the cursor skips. -/
lemma Inv.update (h : Inv s) (hcall : s.calls call = .answered lock res)
    (hroom : s.client.Room res) : Inv { s with client := s.client.update res } := by
  obtain ⟨hpayments, hcovers⟩ := h.answers call lock res hcall
  have hmono : ∀ lock, lock ∈ s.client.lookupTable → lock ∈ (s.client.update res).lookupTable :=
    fun lock hlock => (Client.mem_update hroom).mpr (Or.inl hlock)
  refine ⟨fun lock v hv => ?_, hcovers.write fun p => Client.mem_update_of_settled hroom,
    fun call' lock' res' hcall' => ?_⟩
  · rw [Client.getElem?_update hroom] at hv
    rcases LookupTable.of_getElem?_insertAll hv with hv | ⟨p, hp, hlock, hpreimage, -⟩
    · exact h.cached lock v hv
    · exact ⟨p, hpayments p hp, hlock, hpreimage⟩
  · obtain ⟨hpayments', hcovers'⟩ := h.answers call' lock' res' hcall'
    exact ⟨hpayments', hcovers'.mono hmono⟩

lemma Inv.step (h : Inv s) (hkeeps : event.Keeps s) (hmoves : s.Moves event s') : Inv s' := by
  cases hmoves with
  | @node _ node hold hnew =>
    -- what settles now is above the cursor and every answer
    refine ⟨fun lock v hv => ?_, h.cursor.settle fun p hp => ?_, fun call lock res hcall => ?_⟩
    · obtain ⟨p, hp, hcached⟩ := h.cached lock v hv
      exact ⟨p, hold p hp, hcached⟩
    · refine (hnew p hp).imp_right ?_
      rintro ⟨preimage, rfl⟩
      exact hkeeps.1
    · obtain ⟨hpayments, hcovers⟩ := h.answers call lock res hcall
      refine ⟨fun p hp => hold p (hpayments p hp), hcovers.settle fun p hp => ?_⟩
      refine (hnew p hp).imp_right ?_
      rintro ⟨preimage, rfl⟩
      exact hkeeps.2 call lock res hcall
  | hit => exact h.setCall (by simp)
  | miss => exact h.setCall (by simp)
  | request =>
    refine h.setCall fun lock res hphase => ?_
    obtain ⟨-, rfl⟩ := Call.answered.inj hphase
    exact ⟨fun p hp => (Node.mem_listPayments.mp hp).1, h.covers_listPayments _⟩
  | lost => exact h.setCall (by simp)
  | update hcall => exact (h.update hcall (hkeeps _ _ hcall)).setCall (by simp)

/-- What is in the cache is returned, and has settled. -/
lemma Inv.lookup (h : Inv s) (hmem : lock ∈ s.client.lookupTable) :
    ∃ q ∈ s.node.settled, q.paymentHash = lock ∧
      q.paymentPreimage = s.client.lookup lock := by
  rw [Std.TreeMap.mem_iff_isSome_getElem?] at hmem
  obtain ⟨v, hv⟩ := Option.isSome_iff_exists.mp hmem
  obtain ⟨q, hq, hlock, hpreimage⟩ := h.cached lock v hv
  exact ⟨q, hq, hlock, by rw [hpreimage, Client.lookup, hv, Option.map_some]⟩

/-- What a call has in hand when the payment of its hash has settled before. -/
def Holds (p : Payment) (settled : List Payment) (cache : LookupTable) : Call → Prop
  | .answered lock res => lock = p.paymentHash → p.paymentHash ∈ cache ∨ p ∈ res.payments
  | .returned lock secret => lock = p.paymentHash →
      ∃ q ∈ settled, q.paymentHash = p.paymentHash ∧ q.paymentPreimage = secret
  | _ => True

lemma Holds.mono {settled settled' : List Payment} {cache cache' : LookupTable}
    (h : Holds p settled cache phase) (hsettled : ∀ q ∈ settled, q ∈ settled')
    (hcache : ∀ lock, lock ∈ cache → lock ∈ cache') : Holds p settled' cache' phase := by
  cases phase with
  | answered lock res => exact fun hlock => (h hlock).imp_left (hcache _)
  | returned lock secret =>
    intro hlock
    obtain ⟨q, hq, hpayment⟩ := h hlock
    exact ⟨q, hsettled q hq, hpayment⟩
  | idle => trivial
  | waiting lock => trivial
  | failed => trivial

/-- Another call's phase is its own. -/
lemma Holds.setCall {settled : List Payment} {cache : LookupTable} {call' : ℕ}
    (h : Holds p settled cache (s.calls call))
    (hphase : call = call' → Holds p settled cache phase) :
    Holds p settled cache ((s.setCall call' phase).calls call) := by
  rw [System.calls_setCall]
  split_ifs with heq
  · exact hphase heq
  · exact h

lemma Inv.holds_step (h : Inv s) (h' : Inv s') (hkeeps : event.Keeps s)
    (hmoves : s.Moves event s') (hp : p ∈ s.node.settled)
    (hcall : Holds p s.node.settled s.client.lookupTable (s.calls call)) :
    p ∈ s'.node.settled ∧ Holds p s'.node.settled s'.client.lookupTable (s'.calls call) := by
  cases hmoves with
  | node hold => exact ⟨hold p hp, hcall.mono hold fun _ => id⟩
  | hit hidle hlookup =>
    refine ⟨hp, hcall.setCall fun _ => ?_⟩
    -- what is returned comes from the cache
    rintro rfl
    have hmem : p.paymentHash ∈ s.client.lookupTable :=
      Client.mem_iff_lookup.mpr (by rw [hlookup, Option.isSome_some])
    obtain ⟨q, hq, hlock, hpreimage⟩ := h.lookup hmem
    exact ⟨q, hq, hlock, hpreimage.trans hlookup⟩
  | miss => exact ⟨hp, hcall.setCall fun _ => trivial⟩
  | request =>
    refine ⟨hp, hcall.setCall fun _ _ => ?_⟩
    -- the payment is cached, or above the cursor and so in the answer
    rcases h.cursor p hp with hmem | hmem | hlt
    · exact Or.inl hmem
    · exact absurd hmem List.not_mem_nil
    · exact Or.inr (Node.mem_listPayments.mpr ⟨hp, hlt⟩)
  | lost => exact ⟨hp, hcall.setCall fun _ => trivial⟩
  | @update call' lock res hanswered =>
    have hroom := hkeeps _ _ hanswered
    have hcall' : Holds p s.node.settled (s.client.update res).lookupTable (s.calls call) :=
      hcall.mono (fun _ => id) fun lock hlock => (Client.mem_update hroom).mpr (Or.inl hlock)
    refine ⟨hp, @Holds.setCall { s with client := s.client.update res } _ _ _ _ _ _ hcall' ?_⟩
    rintro rfl rfl
    rw [hanswered] at hcall
    exact h'.lookup (Client.mem_update_of_settled hroom hp (hcall rfl))

end Run

/-! ### What is returned -/

section Returned

variable {s₀ s s' : System} {events events' : List Event} {call : ℕ} {lock : BytesN 32}
  {res : PaymentsResponse} {p : Payment}

/-- A call that may still return. -/
def Call.Open (lock : BytesN 32) : Call → Prop
  | .idle => True
  | .waiting lock' | .answered lock' _ => lock' = lock
  | .returned _ _ | .failed => False

lemma System.step_reveal (hcall : s.calls call = .idle) :
    s.step (.reveal call lock) = some (s.setCall call
      (match s.client.lookup lock with
        | some secret => .returned lock (some secret)
        | none => .waiting lock)) := by
  simp only [step, hcall]
  split <;> rfl

lemma System.step_request (hcall : s.calls call = .waiting lock) :
    s.step (.request call) =
      some (s.setCall call (.answered lock (s.node.listPayments s.client.request))) := by
  simp only [step, hcall]

lemma System.step_update (hcall : s.calls call = .answered lock res) :
    s.step (.update call) = some ({ s with client := s.client.update res }.setCall call
      (.returned lock ((s.client.update res).lookup lock))) := by
  simp only [step, hcall]

lemma System.exists_returned_of_answered (hrun : s₀.Run events s)
    (hcall : s.calls call = .answered lock res) :
    ∃ events s' secret, s₀.Run events s' ∧ s'.calls call = .returned lock secret :=
  ⟨_, _, _, hrun.snoc (step_update hcall), calls_setCall_self _ _ _⟩

lemma System.exists_returned_of_waiting (hrun : s₀.Run events s)
    (hcall : s.calls call = .waiting lock) :
    ∃ events s' secret, s₀.Run events s' ∧ s'.calls call = .returned lock secret :=
  exists_returned_of_answered (hrun.snoc (step_request hcall)) (calls_setCall_self _ _ _)

/-- A call that is left to itself returns. -/
lemma System.exists_returned (s : System) (hopen : (s.calls call).Open lock) :
    ∃ events s' secret, s.Run events s' ∧ s'.calls call = .returned lock secret := by
  cases hcall : s.calls call with
  | idle =>
    have hrun := (Trace.nil : s.Run [] s).snoc (@step_reveal s call lock hcall)
    cases hlookup : s.client.lookup lock with
    | some secret =>
      exact ⟨_, _, some secret, hrun, by rw [calls_setCall_self, hlookup]⟩
    | none => exact exists_returned_of_waiting hrun (by rw [calls_setCall_self, hlookup])
  | waiting lock' =>
    rw [hcall] at hopen
    obtain rfl : lock' = lock := hopen
    exact exists_returned_of_waiting .nil hcall
  | answered lock' res =>
    rw [hcall] at hopen
    obtain rfl : lock' = lock := hopen
    exact exists_returned_of_answered .nil hcall
  | returned lock' secret =>
    rw [hcall] at hopen
    exact hopen.elim
  | failed =>
    rw [hcall] at hopen
    exact hopen.elim

/-- **Nothing is missed.**  In every run in which payments settle above the cursor and above the
answers on their way, and no entry is dropped, a call that begins after a payment has settled
returns its preimage; and a call that is left to itself returns. -/
theorem reveal_settled {maxCacheSize : ℕ}
    (hrun : System.KeepingRun (.init maxCacheSize) events s) (hrun' : s.KeepingRun events' s') :
    Reveals s s' ∧ ∀ call lock, (s'.calls call).Open lock →
      ∃ events s'' secret, s'.Run events s'' ∧ s''.calls call = .returned lock secret := by
  refine ⟨fun p hp call hidle secret hreturned hunique => ?_, fun call lock => s'.exists_returned⟩
  have hinv : Inv s := by
    refine Trace.invariant (P := fun _ s => Inv s) (inv_init maxCacheSize) ?_ hrun
    rintro _ _ _ _ - h ⟨hkeeps, hstep⟩
    exact h.step hkeeps (System.moves_of_step hstep)
  have hholds : Inv s' ∧ p ∈ s'.node.settled ∧
      Holds p s'.node.settled s'.client.lookupTable (s'.calls call) := by
    refine Trace.invariant (P := fun _ s => Inv s ∧ p ∈ s.node.settled ∧
      Holds p s.node.settled s.client.lookupTable (s.calls call)) ⟨hinv, hp, ?_⟩ ?_ hrun'
    · rw [hidle]
      trivial
    · rintro _ s₁ event s₂ - ⟨h, hp, hcall⟩ ⟨hkeeps, hstep⟩
      have hmoves := System.moves_of_step hstep
      have h' := h.step hkeeps hmoves
      exact ⟨h', h.holds_step h' hkeeps hmoves hp hcall⟩
  obtain ⟨-, hp', hcall⟩ := hholds
  rw [hreturned] at hcall
  obtain ⟨q, hq, hhash, hpreimage⟩ := hcall rfl
  obtain ⟨preimage, hsome⟩ := Node.exists_preimage hp
  exact ⟨preimage, hsome, by rw [← hpreimage, hunique q hq hhash, hsome]⟩

/-- Once the cursor has passed all payments of a hash that is not cached, a call that is left
to itself returns nothing. -/
theorem missed_of_le (hcall : s.calls call = .idle) (hcache : lock ∉ s.client.lookupTable)
    (hle : ∀ p ∈ s.node.settled, p.paymentHash = lock →
      p.paymentIndex ≤ s.client.lastCacheUpdate) :
    ∃ s', s.Run [.reveal call lock, .request call, .update call] s' ∧
      s'.calls call = .returned lock none := by
  have hnone : ∀ client : Client, lock ∉ client.lookupTable → client.lookup lock = none := by
    intro client hmem
    rwa [Client.mem_iff_lookup, Bool.not_eq_true, Option.isSome_eq_false_iff,
      Option.isNone_iff_eq_none] at hmem
  have hreveal := @System.step_reveal s call lock hcall
  rw [hnone s.client hcache] at hreveal
  have hrun := (((Trace.nil : s.Run [] s).snoc hreveal).snoc
    (System.step_request (System.calls_setCall_self _ _ _))).snoc
      (System.step_update (System.calls_setCall_self _ _ _))
  refine ⟨_, hrun, ?_⟩
  rw [System.calls_setCall_self]
  -- what the node answers has another hash
  refine congrArg _ (hnone _ fun hmem => ?_)
  rcases LookupTable.mem_insertAll.mp (Client.mem_of_mem_update hmem) with hmem | ⟨p, hp, hhash, -⟩
  · exact hcache hmem
  · obtain ⟨hsettled, hlt⟩ := Node.mem_listPayments.mp hp
    exact absurd (hle p hsettled hhash) (Nat.not_le.mpr hlt)

end Returned

namespace Sample

/-- A hash of one byte over and over. -/
def hash (n : UInt8) : BytesN 32 := BytesN.fill 32 n

/-- A preimage of one byte over and over. -/
def preimage (n : UInt8) : BytesN 32 := BytesN.fill 32 (n + 100)

/-- Both payments have settled, the second one after a call was answered with the first. -/
def both : System :=
  { ((System.init 1000).setCall 0 (.waiting (hash 1))).setCall 0
      (.answered (hash 1) ⟨[⟨hash 1, some (preimage 1), 1⟩], 1⟩) with
    node := [⟨hash 1, 1, .succeeded (preimage 1)⟩, ⟨hash 2, 2, .succeeded (preimage 2)⟩] }

lemma run_both : System.KeepingRun (.init 1000)
    [.create 1 (hash 1), .create 2 (hash 2), .settle 1 (preimage 1), .reveal 0 (hash 1),
      .request 0, .settle 2 (preimage 2)] both := by
  refine .snoc (.snoc (.snoc (.snoc (.snoc (.snoc .nil ⟨trivial, rfl⟩) ⟨trivial, rfl⟩)
    ⟨⟨by decide, fun call lock res hcall => ?_⟩, rfl⟩) ⟨trivial, rfl⟩) ⟨trivial, rfl⟩)
    ⟨⟨by decide, fun call lock res hcall => ?_⟩, rfl⟩
  · -- the one call that waits was answered with the first payment
    rcases eq_or_ne call 0 with rfl | hne
    · obtain ⟨-, rfl⟩ := Call.answered.inj hcall
      decide
    · simp [System.setCall, System.init, Function.update_of_ne hne] at hcall
  · exact absurd (show Call.idle = .answered lock res from hcall) (by simp)

end Sample

/-- Payments that settle in their order are revealed. -/
theorem reveals_both :
    ∃ events s, Sample.both.KeepingRun events s ∧
      s.calls 1 = .returned (Sample.hash 2) (some (Sample.preimage 2)) ∧
      Reveals Sample.both s ∧ ∀ call lock, (s.calls call).Open lock →
        ∃ events s' secret, s.Run events s' ∧ s'.calls call = .returned lock secret := by
  have hrun : Sample.both.KeepingRun
      [.update 0, .reveal 1 (Sample.hash 2), .request 1, .update 1] _ :=
    .snoc (.snoc (.snoc (.snoc .nil
      ⟨fun lock res hcall => by
        obtain ⟨-, rfl⟩ := Call.answered.inj hcall
        exact Or.inl (by decide), rfl⟩) ⟨trivial, rfl⟩) ⟨trivial, rfl⟩)
      ⟨fun lock res hcall => by
        obtain ⟨-, rfl⟩ := Call.answered.inj hcall
        exact Or.inl (by decide), rfl⟩
  exact ⟨_, _, hrun, rfl, reveal_settled Sample.run_both hrun⟩

/-- The second of two payments settles and is revealed, then the first one settles and is not. -/
theorem not_reveals :
    ∃ events events' s s', System.Run (.init 1000) events s ∧ s.Run events' s' ∧ ¬Reveals s s' := by
  refine ⟨[.create 1 (Sample.hash 1), .create 2 (Sample.hash 2), .settle 2 (Sample.preimage 2),
      .reveal 0 (Sample.hash 2), .request 0, .update 0, .settle 1 (Sample.preimage 1)],
    [.reveal 1 (Sample.hash 1), .request 1, .update 1], _, _,
    .snoc (.snoc (.snoc (.snoc (.snoc (.snoc (.snoc .nil rfl) rfl) rfl) rfl) rfl) rfl) rfl,
    .snoc (.snoc (.snoc .nil rfl) rfl) rfl, ?_⟩
  intro h
  obtain ⟨preimage, -, hpreimage⟩ :=
    h ⟨Sample.hash 1, some (Sample.preimage 1), 1⟩ (by decide) 1 rfl none rfl (by decide)
  cases hpreimage

end Konduit.Bln
