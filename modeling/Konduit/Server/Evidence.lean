import Konduit.Server.Store
import Konduit.Tmp.Proposals
import Konduit.Tx2.Respond

/-!
# What the server holds is evidence

Requests come in any order, for any channels, and the entries are written as bytes and read again.
Whatever receipt is read in the end is evidence on chain: all of it verifies under the consumer's
key, the cheques are in order and unsquashed, and their timeouts are whole milliseconds
(`receipts_evident`).  So it serves for a sub or a respond of any channel of this consumer
(`Evident.sub`, `Evident.respond`).
-/

open Lib

namespace Konduit.Data

variable {crypto : Crypto} {key : VerifyingKey} {tag : Tag}

lemma Squash.verifies_of_tryVerify {self : Squash .unverified} {self' : Squash .verified}
    (h : self.tryVerify crypto key tag = .ok self') : self'.Verifies crypto key tag := by
  obtain ⟨hsigned, rfl⟩ := Squash.tryVerify_eq_ok.mp h
  exact Squash.tryVerify_eq_ok.mpr ⟨hsigned, rfl⟩

lemma Locked.verifies_of_tryVerify {self : Locked .unverified} {self' : Locked .verified}
    (h : self.tryVerify crypto key tag = .ok self') : Locked.Verifies crypto key tag self' := by
  obtain ⟨hsigned, rfl⟩ := Locked.tryVerify_eq_ok.mp h
  exact Locked.tryVerify_eq_ok.mpr ⟨hsigned, rfl⟩

/-- The timeout is signed in whole milliseconds, so what comes off the wire still verifies. -/
lemma Cheque.Verifies.wire {V : VerifyState} {self : Cheque V} (h : self.Verifies crypto key tag)
    (W : VerifyState) : (self.wire.withState W).Verifies crypto key tag := by
  cases self with
  | unlocked cheque =>
    refine Unlocked.verifies_iff.mpr ?_
    have hsigned := Unlocked.verifies_iff.mp h
    simpa [Unlocked.toKernel, ChequeSigned.wire, ChequeSigned.withState, ChequeBody.wire,
      ChequeBody.toKernel, Duration.toInt] using hsigned
  | locked cheque =>
    refine Locked.verifies_iff.mpr ?_
    have hsigned := Locked.verifies_iff.mp h
    simpa [ChequeSigned.wire, ChequeSigned.withState, ChequeBody.wire, ChequeBody.toKernel,
      Duration.toInt] using hsigned

end Konduit.Data

namespace Konduit.Server

open Data Tmp

/-! ### What is kept -/

/-- What is kept of the receipt of a consumer. -/
structure Witnessed (crypto : Crypto) (keytag : Keytag) (receipt : Receipt) : Prop where
  ordered : receipt.Ordered
  tidy : receipt.Tidy
  squash : receipt.squash.Verifies crypto keytag.key keytag.tag
  cheques : ∀ c ∈ receipt.cheques, c.Verifies crypto keytag.key keytag.tag
  short : receipt.cheques.length ≤ maxUnsquashed

/-- What is read of it: the squash is well-formed, and the timeouts are whole milliseconds. -/
structure Evident (crypto : Crypto) (keytag : Keytag) (receipt : Receipt) : Prop extends
    Witnessed crypto keytag receipt where
  wellFormed : receipt.squash.body.WellFormed
  canonical : ∀ c ∈ receipt.cheques, c.timeout.Canonical

/-- No request brings the greatest word as an index. -/
def Request.Indexed (parseInvoice : PayBody.ParseInvoice) : Request → Prop
  | squash doc => ∀ squash, unmediateSquash doc = some squash → squash.index ≠ Word.maxValue
  | pay doc => ∀ body, PayBody.unmediate parseInvoice doc = some body →
      body.locked.index ≠ Word.maxValue
  | secrets _ | retainers _ => True

section Steps

variable {crypto : Crypto} {parseInvoice : PayBody.ParseInvoice} {keytag : Keytag}
  {channel channel' : Channel} {receipt receipt' : Receipt}

lemma Witnessed.new {squash : Squash .verified} (hmax : squash.index ≠ Word.maxValue)
    (hverifies : squash.Verifies crypto keytag.key keytag.tag) :
    Witnessed crypto keytag (.new squash) where
  ordered := .new hmax
  tidy := ⟨List.Pairwise.nil, List.forall_mem_nil _⟩
  squash := hverifies
  cheques := List.forall_mem_nil _
  short := Nat.zero_le _

lemma Witnessed.applySquash (h : Witnessed crypto keytag receipt) {squash : Squash .verified}
    (hmax : squash.index ≠ Word.maxValue)
    (hverifies : squash.Verifies crypto keytag.key keytag.tag)
    (happly : receipt.applySquash squash = .ok receipt') : Witnessed crypto keytag receipt' := by
  have hordered := h.ordered.applySquash hmax happly
  have htidy := h.tidy.applySquash happly
  obtain ⟨-, rfl⟩ := Receipt.applySquash_eq_ok.mp happly
  exact ⟨hordered, htidy, hverifies, fun c hc => h.cheques c (List.mem_of_mem_filter hc),
    (List.length_filter_le _ _).trans h.short⟩

/-- As no index is the greatest word, the next index does not wrap. -/
lemma exact_of_ordered (h : receipt.Ordered) (locked : Locked .verified) :
    (Receipt.Call.locked locked).Exact receipt := by
  rw [Receipt.Call.Exact, ← UInt64.toNat_inj, Word.toNat_succ (h.below _ receipt.maxIndex_mem)]

lemma Witnessed.applyLocked (h : Witnessed crypto keytag receipt) {locked : Locked .verified}
    (hmax : locked.index ≠ Word.maxValue)
    (hverifies : Locked.Verifies crypto keytag.key keytag.tag locked)
    (hroom : receipt.cheques.length < maxUnsquashed)
    (happly : receipt.applyLocked locked = .ok receipt') : Witnessed crypto keytag receipt' := by
  have hordered := h.ordered.applyLocked hmax happly
  have htidy := h.tidy.applyLocked (exact_of_ordered h.ordered locked) happly
  obtain ⟨-, rfl⟩ := Receipt.applyLocked_eq_ok.mp happly
  exact {
    ordered := hordered
    tidy := htidy
    squash := h.squash
    cheques := List.forall_mem_append.mpr ⟨h.cheques, List.forall_mem_singleton.mpr hverifies⟩
    short := List.length_append.trans_le hroom }

/-- The secret stands for the lock that was signed. -/
lemma verifies_unlockCheque {secret : Secret} {cheque : Cheque .verified}
    (h : cheque.Verifies crypto keytag.key keytag.tag) :
    (Receipt.unlockCheque crypto secret cheque).Verifies crypto keytag.key keytag.tag := by
  cases hlocked : Receipt.lockedBy crypto secret cheque with
  | false => rwa [Receipt.unlockCheque_of_not_lockedBy hlocked]
  | true =>
    obtain ⟨locked, rfl, hlock, heq⟩ := Receipt.unlockCheque_of_lockedBy hlocked
    rw [heq]
    have hbody : ({ locked.body with latch := secret } : ChequeBody Secret).locked crypto =
        locked.body := by
      rw [ChequeBody.locked, ← hlock]
      rfl
    have hsigned := (Locked.tryVerify_eq_ok.mp h).1
    change Unlocked.tryVerify crypto keytag.key keytag.tag _ = _
    rw [Unlocked.tryVerify]
    exact if_pos (hbody.symm ▸ hsigned)

lemma Witnessed.unlock (h : Witnessed crypto keytag receipt) (secret : Secret) :
    Witnessed crypto keytag { receipt with
      cheques := receipt.cheques.map (Receipt.unlockCheque crypto secret) } where
  ordered := h.ordered.unlock crypto secret
  tidy := h.tidy.of_sublist rfl (Receipt.map_index_unlock crypto secret receipt.cheques ▸
    List.Sublist.refl _)
  squash := h.squash
  cheques := List.forall_mem_map.mpr fun c hc => verifies_unlockCheque (h.cheques c hc)
  short := (List.length_map _).trans_le h.short

/-- What the receipt of a channel keeps. -/
def Channel.Witnessed (crypto : Crypto) (keytag : Keytag) (self : Channel) : Prop :=
  ∀ receipt ∈ self.receipt, Server.Witnessed crypto keytag receipt

lemma Channel.Witnessed.applySecret (h : channel.Witnessed crypto keytag) {secret : Secret}
    (happly : channel.applySecret crypto secret = .ok channel') :
    channel'.Witnessed crypto keytag := by
  obtain ⟨receipt, hreceipt, rfl⟩ := Channel.applySecret_eq_ok happly
  rintro receipt' hreceipt'
  obtain rfl := Option.some.inj hreceipt'
  exact (h receipt hreceipt).unlock secret

/-- One request keeps the receipt. -/
lemma Channel.Witnessed.changes {request : Request} {old : Value}
    (h : (old.toChannel keytag).Witnessed crypto keytag) (hindexed : request.Indexed parseInvoice)
    (hchanges : request.Changes crypto parseInvoice (old.toChannel keytag) channel) :
    channel.Witnessed crypto keytag := by
  cases request with
  | squash doc =>
    obtain ⟨squash, hsquash, happly⟩ := hchanges
    obtain ⟨verified, receipt, hverify, rfl, hcases⟩ := Channel.applySquash_cases happly
    have hmax : verified.index ≠ Word.maxValue := by
      rw [(Squash.tryVerify_eq_ok.mp hverify).2]
      exact hindexed squash hsquash
    have hverifies : verified.Verifies crypto keytag.key keytag.tag :=
      Squash.verifies_of_tryVerify hverify
    rintro receipt' hreceipt'
    obtain rfl := Option.some.inj hreceipt'
    rcases hcases with ⟨-, rfl⟩ | ⟨before, hbefore, htaken⟩
    · exact .new hmax hverifies
    · exact (h before hbefore).applySquash hmax hverifies htaken
  | pay doc =>
    obtain ⟨body, hbody, happly⟩ := hchanges
    obtain ⟨receipt, receipt', verified, uncommitted, hreceipt, hverify, huncommitted, -, htaken,
      rfl⟩ := Channel.applyLocked_cases happly
    have hmax : verified.index ≠ Word.maxValue := by
      rw [(Locked.tryVerify_eq_ok.mp hverify).2]
      exact hindexed body hbody
    rintro receipt'' hreceipt''
    obtain rfl := Option.some.inj hreceipt''
    exact (h receipt hreceipt).applyLocked hmax (Locked.verifies_of_tryVerify hverify)
      (Channel.length_lt_of_uncommitted huncommitted hreceipt) htaken
  | secrets secrets =>
    exact Result.foldlM_invariant (P := fun c : Channel => c.Witnessed crypto keytag)
      (fun _ _ _ h happly => h.applySecret happly) h hchanges
  | retainers candidates =>
    obtain rfl := Except.ok.inj hchanges
    exact h

/-- What is read of an entry is evident, where what was written of it was kept. -/
lemma evident_of_fromBytes {value old : Value}
    (h : ∀ r ∈ value.receipt, Witnessed crypto keytag r)
    (hread : Value.fromBytes value.encode = some old) :
    ∀ r ∈ old.receipt, Evident crypto keytag r := by
  rw [Value.fromBytes_encode fun r hr => (h r hr).short] at hread
  split_ifs at hread with hwf
  obtain rfl := Option.some.inj hread
  intro wired hwired
  obtain ⟨r, hr, rfl⟩ := Option.map_eq_some_iff.mp hwired
  have hkept := h r hr
  have hindexes : r.wire.cheques.map Cheque.index = r.cheques.map Cheque.index := by
    rw [Receipt.wire, List.map_map]
    exact List.map_congr_left fun c _ => by cases c <;> rfl
  have hordered : r.wire.Ordered := by
    refine ⟨?_, ?_⟩
    · rw [hindexes]
      exact hkept.ordered.sorted
    · rw [Receipt.indexes, hindexes]
      exact hkept.ordered.below
  exact {
    ordered := hordered
    tidy := hkept.tidy.of_sublist rfl (hindexes ▸ List.Sublist.refl _)
    squash := hkept.squash
    cheques := List.forall_mem_map.mpr fun c hc => (hkept.cheques c hc).wire _
    short := (List.length_map _).trans_le hkept.short
    wellFormed := hwf r hr
    canonical := List.forall_mem_map.mpr fun c _ => c.canonical_wire _ }

end Steps

/-! ### What it serves for -/

section Serves

variable {crypto : Crypto} {keytag : Keytag} {receipt : Receipt} {constants : Constants}
  {useds : List Used}

/-- It is evidence for a respond of any channel of the consumer. -/
lemma Evident.respond (h : Evident crypto keytag receipt) (hkey : constants.addVkey = keytag.key)
    (htag : constants.tag = keytag.tag) (huseds : useds.Pairwise (·.index < ·.index)) :
    Tx2.RespondEvidence crypto constants useds receipt.squash receipt.cheques where
  sortedUseds := huseds
  squashVerifies := by
    rw [hkey, htag]
    exact h.squash
  wellFormed := h.wellFormed
  sorted := List.pairwise_map.mp h.ordered.sorted
  verifies := by
    rw [hkey, htag]
    exact h.cheques
  uncovered c hc := h.tidy.unsquashed _ (List.mem_map_of_mem hc)

/-- It is evidence for a sub of any channel of the consumer. -/
lemma Evident.sub (h : Evident crypto keytag receipt) (hkey : constants.addVkey = keytag.key)
    (htag : constants.tag = keytag.tag) (huseds : useds.Pairwise (·.index < ·.index)) :
    Tx2.SubEvidence crypto constants useds receipt.squash receipt.unlockeds where
  sortedUseds := huseds
  squashVerifies := (h.respond hkey htag huseds).squashVerifies
  wellFormed := h.wellFormed
  sorted := h.tidy.sorted_unlockeds
  verifies _ hc := (h.respond hkey htag huseds).verifies _ (Receipt.mem_unlockeds.mp hc)
  uncovered _ hc := (h.respond hkey htag huseds).uncovered _ (Receipt.mem_unlockeds.mp hc)

end Serves

/-! ### Runs -/

section Runs

variable {crypto : Crypto} {parseInvoice : PayBody.ParseInvoice} {store store' : Store}
  {ts : List Transition}

lemma all_witnessed (hrun : Run crypto parseInvoice store ts store') (hfresh : store.Fresh)
    (hindexed : ∀ t ∈ ts, t.call.request.Indexed parseInvoice) :
    store'.All fun keytag value => ∀ r ∈ value.receipt, Witnessed crypto keytag r := by
  refine Trace.invariant_of_forall
    (P := fun _ s => s.All fun keytag value => ∀ r ∈ value.receipt, Witnessed crypto keytag r)
    (.of_fresh hfresh fun _ _ _ _ hr => nomatch hr) ?_ hrun hindexed
  rintro _ s t s' hall hindexed hserves
  refine (hall.serves (fun _ _ hr => nomatch hr) hserves fun hv hread hchanges => ?_).2
  have hread := fun r hr => (evident_of_fromBytes hv hread r hr).toWitnessed
  exact Channel.Witnessed.changes hread hindexed hchanges

/-- **Evidence.**  In every run of the server from a fresh store, with requests in any order for any
channels of which none brings the greatest word as an index, each receipt that is then read is
evidence of its consumer: it verifies, it is in order, and it comes in whole milliseconds. -/
theorem receipts_evident (hrun : Run crypto parseInvoice store ts store') (hfresh : store.Fresh)
    (hindexed : ∀ t ∈ ts, t.call.request.Indexed parseInvoice) {keytag : Keytag}
    {channel : Channel} (hget : store'.get keytag = .ok channel) :
    ∀ receipt ∈ channel.receipt, Evident crypto keytag receipt := by
  obtain ⟨bytes, old, hbytes, hread, rfl⟩ := Store.get_eq_ok.mp hget
  obtain ⟨value, rfl, hkept⟩ := all_witnessed hrun hfresh hindexed keytag bytes hbytes
  exact evident_of_fromBytes hkept hread

end Runs

/-- After the null squash, a cheque, and its secret, with the squash and the cheque in JSON. -/
theorem receipts_evident_of_secret : ∃ channel,
    (Sample.store (some (Sample.unlocked 2000))).get Sample.keytag = .ok channel ∧
      channel.receipt = some (Sample.unlocked 2000) ∧
        Evident .noCrypto Sample.keytag (Sample.unlocked 2000) := by
  have hget := @Sample.get_store (Sample.unlocked 2000).cheques (by decide) (by decide)
  refine ⟨_, hget, rfl, receipts_evident (Sample.run_unlocked rfl ⟨_, rfl⟩) Sample.store_fresh ?_
    hget _ rfl⟩
  refine List.forall_mem_cons.mpr ⟨fun squash hsquash => ?_, List.forall_mem_cons.mpr
    ⟨fun body hbody => ?_, List.forall_mem_singleton.mpr trivial⟩⟩
  · obtain rfl := Option.some.inj (hsquash.symm.trans Sample.nullSquash.ofJson_toJson)
    show (0 : UInt64) ≠ Word.maxValue
    decide
  · obtain rfl := Option.some.inj (hbody.symm.trans (Sample.unmediate_payBody 2000))
    show (1 : UInt64) ≠ Word.maxValue
    decide

end Konduit.Server
