import Konduit.Server.Store

/-!
# Recording revealed secrets

The server asks its node for the secrets of the cheques that a channel holds locked, one for
each cheque, and applies them to the channel all at once.  Other requests are served meanwhile.
A secret that unlocks nothing is refused, and with it all others: so the secrets are recorded
just when each of them still has a cheque to unlock, and no two unlock the same
(`unlocks_recorded_iff`).
-/

open Lib

namespace Konduit.Server

open Data Tmp

/-! ### Secrets of a channel -/

section Secrets

variable {crypto : Crypto} {self self' : Channel} {receipt : Receipt} {secrets : List Secret}

/-- Unlock a cheque by any of a list of secrets. -/
def unlockAll (crypto : Crypto) (secrets : List Secret) (cheque : Cheque .verified) :
    Cheque .verified :=
  secrets.foldl (fun cheque secret => Receipt.unlockCheque crypto secret cheque) cheque

/-- Each secret has a cheque to unlock, and no two unlock the same. -/
structure Applicable (crypto : Crypto) (receipt : Receipt) (secrets : List Secret) : Prop where
  held : ∀ secret ∈ secrets, receipt.cheques.any (Receipt.lockedBy crypto secret) = true
  distinct : (secrets.map (Lock.ofSecret crypto)).Nodup

lemma applicable_cons {secret : Secret} :
    Applicable crypto receipt (secret :: secrets) ↔
      receipt.cheques.any (Receipt.lockedBy crypto secret) = true ∧
        Applicable crypto
          { receipt with cheques := receipt.cheques.map (Receipt.unlockCheque crypto secret) }
          secrets := by
  -- after the first secret, the cheques that are left to unlock are those of another lock
  have hany : ∀ secret', (receipt.cheques.map (Receipt.unlockCheque crypto secret)).any
      (Receipt.lockedBy crypto secret') = true ↔
        receipt.cheques.any (Receipt.lockedBy crypto secret') = true ∧
          Lock.ofSecret crypto secret' ≠ Lock.ofSecret crypto secret := by
    intro secret'
    simp only [List.any_map, List.any_eq_true, Function.comp_apply,
      Receipt.lockedBy_unlockCheque, Bool.and_eq_true, decide_eq_true_eq]
    constructor
    · rintro ⟨c, hc, hlocked, hne⟩
      exact ⟨⟨c, hc, hlocked⟩, hne⟩
    · rintro ⟨⟨c, hc, hlocked⟩, hne⟩
      exact ⟨c, hc, hlocked, hne⟩
  constructor
  · rintro ⟨hheld, hdistinct⟩
    obtain ⟨hnew, hdistinct⟩ := List.nodup_cons.mp hdistinct
    obtain ⟨hfirst, hheld⟩ := List.forall_mem_cons.mp hheld
    refine ⟨hfirst, fun secret' hmem => (hany secret').mpr ⟨hheld secret' hmem, ?_⟩, hdistinct⟩
    exact fun heq => hnew (List.mem_map.mpr ⟨secret', hmem, heq⟩)
  · rintro ⟨hfirst, hheld, hdistinct⟩
    refine ⟨?_, List.nodup_cons.mpr ⟨?_, hdistinct⟩⟩
    · exact List.forall_mem_cons.mpr
        ⟨hfirst, fun secret' hmem => ((hany secret').mp (hheld secret' hmem)).1⟩
    · intro hmem
      obtain ⟨secret', hmem, heq⟩ := List.mem_map.mp hmem
      exact ((hany secret').mp (hheld secret' hmem)).2 heq

lemma Channel.applySecret_eq_ok_iff (hreceipt : self.receipt = some receipt) {secret : Secret} :
    self.applySecret crypto secret = .ok self' ↔
      receipt.cheques.any (Receipt.lockedBy crypto secret) = true ∧
        self' = { self with receipt := some { receipt with
          cheques := receipt.cheques.map (Receipt.unlockCheque crypto secret) } } := by
  simp only [applySecret, Result.bind_eq_ok, Result.mapError_eq_ok, getReceipt_eq_ok,
    Result.pure_eq_ok, hreceipt, Option.some.injEq, exists_eq_left', Receipt.applySecret]
  split_ifs with hany
  · simp [hany, eq_comm]
  · simp [hany]

/-- Secrets are applied all together, just when they are applicable. -/
theorem Channel.applySecrets_eq_ok_iff (hreceipt : self.receipt = some receipt) :
    self.applySecrets crypto secrets = .ok self' ↔
      Applicable crypto receipt secrets ∧
        self' = { self with receipt := some { receipt with
          cheques := receipt.cheques.map (unlockAll crypto secrets) } } := by
  rw [applySecrets]
  induction secrets generalizing self receipt with
  | nil =>
    have hself : ({ self with receipt := some { receipt with
        cheques := receipt.cheques.map (unlockAll crypto []) } } : Channel) = self := by
      rw [show unlockAll crypto [] = id from rfl, List.map_id, ← hreceipt]
    rw [List.foldlM_nil, Result.pure_eq_ok, hself]
    exact ⟨fun h => ⟨⟨by simp, List.nodup_nil⟩, h.symm⟩, fun h => h.2.symm⟩
  | cons secret secrets ih =>
    have hrest := @ih { self with receipt := some { receipt with
      cheques := receipt.cheques.map (Receipt.unlockCheque crypto secret) } } _ rfl
    have hcomp : unlockAll crypto (secret :: secrets) =
        unlockAll crypto secrets ∘ Receipt.unlockCheque crypto secret := rfl
    rw [List.foldlM_cons, Result.bind_eq_ok, applicable_cons, hcomp, ← List.map_map]
    simp only [applySecret_eq_ok_iff hreceipt, and_assoc, exists_and_left, exists_eq_left, hrest]

lemma lock_unlockAll (cheque : Cheque .verified) :
    (unlockAll crypto secrets cheque).lock crypto = cheque.lock crypto := by
  induction secrets generalizing cheque with
  | nil => rfl
  | cons secret secrets ih =>
    exact (ih _).trans (Receipt.lock_unlockCheque crypto secret cheque)

/-- An unlocked cheque stays as it is. -/
lemma unlockAll_unlocked (cheque : Unlocked .verified) :
    unlockAll crypto secrets (.unlocked cheque) = .unlocked cheque := by
  induction secrets with
  | nil => rfl
  | cons secret secrets ih => exact ih

/-- A cheque that one of the secrets unlocks is unlocked. -/
lemma isSome_asUnlocked_unlockAll {cheque : Cheque .verified}
    (h : cheque.lock crypto ∈ secrets.map (Lock.ofSecret crypto)) :
    (unlockAll crypto secrets cheque).asUnlocked.isSome = true := by
  induction secrets generalizing cheque with
  | nil => simp at h
  | cons secret secrets ih =>
    show (unlockAll crypto secrets (Receipt.unlockCheque crypto secret cheque)).asUnlocked.isSome
      = true
    rcases List.mem_cons.mp h with heq | hmem
    · cases cheque with
      | unlocked cheque =>
        rw [show Receipt.unlockCheque crypto secret (.unlocked cheque) = .unlocked cheque from rfl,
          unlockAll_unlocked]
        rfl
      | locked cheque =>
        have hlocked : Receipt.lockedBy crypto secret (.locked cheque) = true := by
          simpa [Receipt.lockedBy, Cheque.asLocked, Cheque.lock] using heq
        obtain ⟨_, _, _, hunlock⟩ := Receipt.unlockCheque_of_lockedBy hlocked
        rw [hunlock, unlockAll_unlocked]
        rfl
    · exact ih (by rwa [Receipt.lock_unlockCheque])

end Secrets

/-! ### The loop over the channels -/

/-- Why a round of unlocking stops. -/
inductive UnlocksError where
  | vanished (keytag : Keytag)
  | bln
  | db (e : DbError)
deriving DecidableEq

/-- The secrets of the locks that are revealed.  The node may fail to answer. -/
def getSecrets (reveal : Lock → Option (Option Secret)) : List Lock → Option (List Secret)
  | [] => some []
  | lock :: locks => do
    let secret ← reveal lock
    let secrets ← getSecrets reveal locks
    return secret.toList ++ secrets

/-- The locks that the node is asked for. -/
def Channel.locks (receipt : Receipt) : List Lock := receipt.lockeds.map fun l => l.body.lock

/-- One round of the loop: the channel, the answers of the node, and the requests that are
served before the channel is read and before it is written. -/
structure Visit where
  keytag : Keytag
  before : List Call
  meanwhile : List Call
  reveal : Lock → Option (Option Secret)

section Loop

variable (crypto : Crypto) (parseInvoice : PayBody.ParseInvoice)

/-- Serve requests; one that fails changes nothing. -/
def serveAll (store : Store) (calls : List Call) : Store :=
  calls.foldl (fun store call =>
    match serve crypto parseInvoice store call with
    | .ok (_, store) => store
    | .error _ => store) store

/-- The store when a round reads its channel. -/
def Visit.read (visit : Visit) (store : Store) : Store :=
  serveAll crypto parseInvoice store visit.before

/-- The store when a round writes its channel. -/
def Visit.write (visit : Visit) (store : Store) : Store :=
  serveAll crypto parseInvoice (visit.read crypto parseInvoice store) visit.meanwhile

/-- Unlock the cheques of a channel by the secrets that the node reveals. -/
def unlock (store : Store) (visit : Visit) : Except UnlocksError Store :=
  let read := visit.read crypto parseInvoice store
  match read.get visit.keytag with
  | .error .noChannel => .error (.vanished visit.keytag)
  | .error e => .error (.db e)
  | .ok channel =>
    match channel.receipt with
    | none => .ok read
    | some receipt =>
      match getSecrets visit.reveal (Channel.locks receipt) with
      | none => .error .bln
      | some secrets =>
        let store := visit.write crypto parseInvoice store
        if secrets.isEmpty then .ok store
        else do
          let (_, store) ←
            (store.update visit.keytag fun c => c.applySecrets crypto secrets).mapError .db
          return store

/-- Visit one channel after another; the first error ends the loop. -/
def unlocks (store : Store) (visits : List Visit) : Except UnlocksError Store :=
  visits.foldlM (unlock crypto parseInvoice) store

/-- The secrets that a round collects for its channel, when there are any. -/
def Visit.Collects (visit : Visit) (store : Store) (secrets : List Secret) : Prop :=
  ∃ channel receipt, (visit.read crypto parseInvoice store).get visit.keytag = .ok channel ∧
    channel.receipt = some receipt ∧
    getSecrets visit.reveal (Channel.locks receipt) = some secrets ∧ secrets ≠ []

/-- What a round collects is applied, and then no cheque that is held is locked by it. -/
def Visit.Records (visit : Visit) (store : Store) : Prop :=
  ∀ secrets, visit.Collects crypto parseInvoice store secrets →
    ∃ value store', (visit.write crypto parseInvoice store).update visit.keytag
        (fun c => c.applySecrets crypto secrets) = .ok (value, store') ∧
      unlock crypto parseInvoice store visit = .ok store' ∧
      ∀ receipt ∈ value.receipt, ∀ cheque ∈ receipt.cheques,
        cheque.lock crypto ∈ secrets.map (Lock.ofSecret crypto) →
          cheque.asUnlocked.isSome = true

/-- When a round writes, the channel can be read, and what was collected is applicable. -/
def Visit.Finds (visit : Visit) (store : Store) : Prop :=
  ∀ secrets, visit.Collects crypto parseInvoice store secrets →
    ∃ channel receipt, (visit.write crypto parseInvoice store).get visit.keytag = .ok channel ∧
      channel.receipt = some receipt ∧ Applicable crypto receipt secrets

/-- A property of each round that the loop comes to. -/
def EachVisit (P : Visit → Store → Prop) (store : Store) (visits : List Visit) : Prop :=
  ∀ before visit after store', visits = before ++ visit :: after →
    unlocks crypto parseInvoice store before = .ok store' → P visit store'

/-- No secret that is refused ends the loop. -/
def Unrefused (store : Store) (visits : List Visit) : Prop :=
  ∀ e, unlocks crypto parseInvoice store visits ≠ .error (.db (.channel e))

end Loop

/-! ### When secrets are recorded -/

section Recorded

variable {crypto : Crypto} {parseInvoice : PayBody.ParseInvoice} {store : Store} {visit : Visit}
  {visits : List Visit} {secrets : List Secret}

lemma update_applySecrets_iff {keytag : Keytag} {value : Value} {store' : Store}
    (hne : secrets ≠ []) :
    store.update keytag (fun c => c.applySecrets crypto secrets) = .ok (value, store') ↔
      ∃ channel receipt, store.get keytag = .ok channel ∧ channel.receipt = some receipt ∧
        Applicable crypto receipt secrets ∧
        value = .fromChannel { channel with receipt := some { receipt with
          cheques := receipt.cheques.map (unlockAll crypto secrets) } } ∧
        store' = Function.update store keytag (some value.encode) := by
  rw [Store.update, Store.write_eq_ok]
  constructor
  · rintro ⟨channel, channel', hget, happly, rfl, rfl⟩
    cases hreceipt : channel.receipt with
    | none =>
      obtain ⟨secret, secrets, rfl⟩ := List.exists_cons_of_ne_nil hne
      rw [Channel.applySecrets, List.foldlM_cons, Result.bind_eq_ok] at happly
      obtain ⟨next, hnext, -⟩ := happly
      obtain ⟨receipt, hsome, -⟩ := Channel.applySecret_eq_ok hnext
      exact absurd (hreceipt.symm.trans hsome) (by simp)
    | some receipt =>
      obtain ⟨happlicable, rfl⟩ := (Channel.applySecrets_eq_ok_iff hreceipt).mp happly
      exact ⟨channel, receipt, hget, hreceipt, happlicable, rfl, rfl⟩
  · rintro ⟨channel, receipt, hget, hreceipt, happlicable, rfl, rfl⟩
    exact ⟨channel, _, hget,
      (Channel.applySecrets_eq_ok_iff hreceipt).mpr ⟨happlicable, rfl⟩, rfl, rfl⟩

/-- A round that collects secrets ends as its update does. -/
lemma unlock_of_collects (h : visit.Collects crypto parseInvoice store secrets) :
    unlock crypto parseInvoice store visit =
      (((visit.write crypto parseInvoice store).update visit.keytag fun c =>
        c.applySecrets crypto secrets).mapError UnlocksError.db).map Prod.snd := by
  obtain ⟨channel, receipt, hget, hreceipt, hsecrets, hne⟩ := h
  have hempty : secrets.isEmpty = false := by simpa using hne
  simp only [unlock, hget, hreceipt, hsecrets, hempty, Bool.false_eq_true, if_false]
  generalize (visit.write crypto parseInvoice store).update visit.keytag
    (fun c => c.applySecrets crypto secrets) = result
  cases result <;> rfl

/-- A round is refused by the channel only when there are secrets to record. -/
lemma collects_of_unlock_eq_error {e : ChannelError}
    (h : unlock crypto parseInvoice store visit = .error (.db (.channel e))) :
    ∃ secrets, visit.Collects crypto parseInvoice store secrets := by
  rw [unlock] at h
  split at h
  · exact absurd h (by simp)
  · rename_i hget
    rw [Except.error.injEq, UnlocksError.db.injEq] at h
    subst h
    -- an entry that is read is refused by no channel
    exact absurd hget (Store.get_ne_channel e)
  · rename_i channel hget
    split at h
    · exact absurd h (by simp)
    · rename_i receipt hreceipt
      split at h
      · exact absurd h (by simp)
      · rename_i secrets hsecrets
        split_ifs at h with hempty
        exact ⟨secrets, channel, receipt, hget, hreceipt, hsecrets, by simpa using hempty⟩

lemma visit_records_iff :
    visit.Records crypto parseInvoice store ↔ visit.Finds crypto parseInvoice store := by
  constructor
  · intro h secrets hcollects
    obtain ⟨value, store', hupdate, -, -⟩ := h secrets hcollects
    obtain ⟨_, _, -, -, -, hne⟩ := hcollects
    obtain ⟨channel, receipt, hget, hreceipt, happlicable, -, -⟩ :=
      (update_applySecrets_iff hne).mp hupdate
    exact ⟨channel, receipt, hget, hreceipt, happlicable⟩
  · intro h secrets hcollects
    obtain ⟨channel, receipt, hget, hreceipt, happlicable⟩ := h secrets hcollects
    obtain ⟨_, _, -, -, -, hne⟩ := id hcollects
    have hupdate := (update_applySecrets_iff hne).mpr
      ⟨channel, receipt, hget, hreceipt, happlicable, rfl, rfl⟩
    refine ⟨_, _, hupdate, ?_, ?_⟩
    · rw [unlock_of_collects hcollects, hupdate]
      rfl
    · intro receipt' hreceipt' cheque hcheque hlock
      obtain rfl := Option.some.inj hreceipt'
      obtain ⟨old, -, rfl⟩ := List.mem_map.mp hcheque
      rw [lock_unlockAll] at hlock
      exact isSome_asUnlocked_unlockAll hlock

/-- A loop that fails does so in a round that it comes to. -/
lemma unlocks_eq_error {e : UnlocksError}
    (h : unlocks crypto parseInvoice store visits = .error e) :
    ∃ before visit after store', visits = before ++ visit :: after ∧
      unlocks crypto parseInvoice store before = .ok store' ∧
      unlock crypto parseInvoice store' visit = .error e := by
  induction visits generalizing store with
  | nil => exact absurd h (by simp [unlocks, pure, Except.pure])
  | cons visit visits ih =>
    rw [unlocks, List.foldlM_cons] at h
    cases hunlock : unlock crypto parseInvoice store visit with
    | error e' =>
      rw [hunlock] at h
      obtain rfl := Except.error.inj h
      exact ⟨[], visit, visits, store, rfl, rfl, hunlock⟩
    | ok next =>
      rw [hunlock] at h
      obtain ⟨before, visit', after, store', rfl, hbefore, herror⟩ := ih h
      refine ⟨visit :: before, visit', after, store', rfl, ?_, herror⟩
      rw [unlocks, List.foldlM_cons, hunlock]
      exact hbefore

lemma unrefused_of_records
    (h : EachVisit crypto parseInvoice (Visit.Records crypto parseInvoice) store visits) :
    Unrefused crypto parseInvoice store visits := by
  intro e herror
  obtain ⟨before, visit, after, store', hvisits, hbefore, hunlock⟩ := unlocks_eq_error herror
  obtain ⟨secrets, hcollects⟩ := collects_of_unlock_eq_error hunlock
  obtain ⟨_, _, -, hok, -⟩ := h before visit after store' hvisits hbefore secrets hcollects
  exact absurd (hok.symm.trans hunlock) (by simp)

/-- **Secrets are recorded.**  Every round of the loop records the secrets that it collects,
and none is refused, just when each round finds, as it writes, that these have cheques to
unlock, and no two the same. -/
theorem unlocks_recorded_iff :
    EachVisit crypto parseInvoice (Visit.Records crypto parseInvoice) store visits ∧
        Unrefused crypto parseInvoice store visits ↔
      EachVisit crypto parseInvoice (Visit.Finds crypto parseInvoice) store visits := by
  have heach : EachVisit crypto parseInvoice (Visit.Records crypto parseInvoice) store visits ↔
      EachVisit crypto parseInvoice (Visit.Finds crypto parseInvoice) store visits :=
    ⟨fun h before visit after store' hvisits hbefore =>
      visit_records_iff.mp (h before visit after store' hvisits hbefore),
    fun h before visit after store' hvisits hbefore =>
      visit_records_iff.mpr (h before visit after store' hvisits hbefore)⟩
  rw [← heach]
  exact ⟨And.left, fun h => ⟨h, unrefused_of_records h⟩⟩

end Recorded

namespace Sample

/-- A cheque that the secret of 32 zero bytes unlocks. -/
def lockedAt (index : UInt64) : Cheque .verified :=
  .locked ⟨⟨index, 1, .fromSecs 100_000, ⟨Crypto.zeroLock⟩⟩, ⟨BytesN.fill 64 0⟩⟩

/-- A receipt with two cheques of one lock. -/
def twice : Receipt := ⟨nullSquash.withState .verified, [lockedAt 1, lockedAt 2]⟩

/-- A round in which the node reveals the secret, and nothing else happens. -/
def revealed : Visit := ⟨keytag, [], [], fun _ => some (some ⟨BytesN.fill 32 0⟩)⟩

lemma get_store_twice :
    (store (some twice)).get keytag = .ok ((value (some twice)).toChannel keytag) := by
  refine Store.get_update ⟨?_, ?_⟩ (by simp [Value.Short, value, twice, maxUnsquashed])
  · intro receipt hreceipt
    obtain rfl := Option.some.inj hreceipt
    exact SquashBody.wellFormed_zero
  · intro receipt hreceipt
    obtain rfl := Option.some.inj hreceipt
    have htimeout : (Duration.fromSecs 100_000).Canonical := by decide
    simp [twice, lockedAt, Cheque.timeout, ChequeSigned.timeout, htimeout]

end Sample

/-- The secret of a lock that two cheques have is collected twice, refused, and ends the loop,
so that it is not recorded at all. -/
theorem unlocks_refused_of_twice :
    unlocks .noCrypto (fun _ => none) (Sample.store (some Sample.twice)) [Sample.revealed] =
        .error (.db (.channel (.receipt .unchanged))) ∧
      ¬(EachVisit .noCrypto (fun _ => none) (Visit.Records .noCrypto fun _ => none)
          (Sample.store (some Sample.twice)) [Sample.revealed] ∧
        Unrefused .noCrypto (fun _ => none) (Sample.store (some Sample.twice))
          [Sample.revealed]) := by
  have hunlocks : unlocks .noCrypto (fun _ => none) (Sample.store (some Sample.twice))
      [Sample.revealed] = .error (.db (.channel (.receipt .unchanged))) := by
    have hcollects : Sample.revealed.Collects .noCrypto (fun _ => none)
        (Sample.store (some Sample.twice)) [⟨BytesN.fill 32 0⟩, ⟨BytesN.fill 32 0⟩] :=
      ⟨_, Sample.twice, Sample.get_store_twice, rfl, rfl, by simp⟩
    have hupdate : (Sample.store (some Sample.twice)).update Sample.keytag (fun c =>
        c.applySecrets .noCrypto [⟨BytesN.fill 32 0⟩, ⟨BytesN.fill 32 0⟩]) =
          .error (.channel (.receipt .unchanged)) := by
      rw [Store.update, Sample.get_store_twice]
      rfl
    rw [unlocks, List.foldlM_cons, unlock_of_collects hcollects]
    show (((Sample.store (some Sample.twice)).update Sample.keytag (fun c =>
        c.applySecrets .noCrypto [⟨BytesN.fill 32 0⟩, ⟨BytesN.fill 32 0⟩])).mapError
          UnlocksError.db).map Prod.snd >>= _ = _
    rw [hupdate]
    rfl
  exact ⟨hunlocks, fun h => h.2 _ hunlocks⟩

end Konduit.Server
