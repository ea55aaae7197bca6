import Konduit.Data.Squash
import Konduit.Data.SquashExact
import Konduit.Lib.Result

/-!
# Receipts

The evidence that a consumer has handed out for a channel: a squash, and the cheques that
it does not squash yet.  Both parties keep it, the adaptor to know what it is owed, the
consumer to know what it may sign next.
-/

open Lib

namespace Konduit.Tmp

open Data

/-- The most cheques of a receipt before no more are taken. -/
def maxUnsquashed : ℕ := 10

/-- Why a receipt refuses a change. -/
inductive ReceiptError where
  | includesCheque (index : UInt64)
  | squashAmountLess
  | input
  | unchanged
  | other
deriving DecidableEq

/-- What the adaptor holds of a channel: a squash, and the cheques after it. -/
structure Receipt where
  squash : Squash .verified
  cheques : List (Cheque .verified)
deriving DecidableEq

/-- What the adaptor asks the consumer to sign, with the evidence for it. -/
structure SquashProposal where
  proposal : SquashBody
  current : Squash .unverified
  unlockeds : List (Unlocked .unverified)
  lockeds : List (Locked .unverified)
deriving DecidableEq

/-- What there is to squash. -/
inductive SquashStatus where
  | complete
  | incomplete (st : SquashProposal)
  | stale (st : SquashProposal)
deriving DecidableEq

namespace Receipt

/-- A receipt from a first squash. -/
def new (squash : Squash .verified) : Receipt := ⟨squash, []⟩

/-- The cheques whose secrets are known. -/
def unlockeds (self : Receipt) : List (Unlocked .verified) :=
  self.cheques.filterMap Cheque.asUnlocked

/-- The cheques that are still locked. -/
def lockeds (self : Receipt) : List (Locked .verified) := self.cheques.filterMap Cheque.asLocked

/-- The greatest of the index of the squash and that of the last cheque. -/
def maxIndex (self : Receipt) : UInt64 :=
  max self.squash.index ((self.cheques.getLast?.map Cheque.index).getD 0)

/-- What the squash and the unlocked cheques come to, as a word. -/
def owed (self : Receipt) : UInt64 :=
  self.squash.amount + Word.sum (self.unlockeds.map ChequeSigned.amount)

/-- What the consumer may have to pay in the end. -/
def committed (self : Receipt) : UInt64 :=
  self.squash.amount + Word.sum (self.cheques.map Cheque.amount)

/-- What is owed, in exact arithmetic. -/
def exactOwed (self : Receipt) : ℕ :=
  self.squash.amount.toNat + (self.unlockeds.map fun u => u.amount.toNat).sum

/-- What is committed, in exact arithmetic. -/
def exactCommitted (self : Receipt) : ℕ :=
  self.squash.amount.toNat + (self.cheques.map fun c => c.amount.toNat).sum

lemma toNat_committed (self : Receipt) : self.committed.toNat = self.exactCommitted % 2 ^ 64 := by
  rw [committed, UInt64.toNat_add, Word.toNat_sum_map, Nat.add_mod_mod]
  rfl

/-- How many more cheques there is room for. -/
def capacity (self : Receipt) : ℕ := maxUnsquashed - self.cheques.length

/-! ### Changes -/

/-- Take the next cheque. -/
def applyLocked (self : Receipt) (locked : Locked .verified) : Except ReceiptError Receipt :=
  if locked.index ≠ self.maxIndex + 1 then .error .input
  else .ok { self with cheques := self.cheques ++ [.locked locked] }

/-- Unlock a cheque by its secret, and leave any other as it is. -/
def unlockCheque (crypto : Crypto) (secret : Secret) (cheque : Cheque .verified) :
    Cheque .verified :=
  match cheque with
  | .locked locked =>
    match Unlocked.tryFromLocked crypto locked secret with
    | some unlocked => .unlocked unlocked
    | none => cheque
  | .unlocked _ => cheque

/-- The cheque is locked by the lock of this secret. -/
def lockedBy (crypto : Crypto) (secret : Secret) (cheque : Cheque .verified) : Bool :=
  cheque.asLocked.any fun locked => locked.body.lock = Lock.ofSecret crypto secret

/-- Unlock every cheque that a secret unlocks; there must be one. -/
def applySecret (self : Receipt) (crypto : Crypto) (secret : Secret) :
    Except ReceiptError Receipt :=
  if self.cheques.any (lockedBy crypto secret) then
    .ok { self with cheques := self.cheques.map (unlockCheque crypto secret) }
  else .error .unchanged

/-- Drop the locked cheques that can no longer be unlocked. -/
def applyTimeout (self : Receipt) (now : Duration) : Receipt :=
  { self with cheques := self.cheques.filter fun c => c.asLocked.all fun l => l.timeout > now }

/-- Put a locked cheque in the place of one with the same index and lock, for more and for
longer. -/
def applyReplace (self : Receipt) (newLocked : Locked .verified) : Except ReceiptError Receipt :=
  match self.cheques.find? fun c => c.index = newLocked.index with
  | none => .error .input
  | some (.unlocked _) => .error .other
  | some (.locked oldLocked) =>
    if newLocked.body.lock ≠ oldLocked.body.lock ∨ newLocked.amount ≤ oldLocked.amount ∨
        newLocked.timeout ≤ oldLocked.timeout then
      .error .input
    else
      .ok { self with cheques := self.cheques.replaceF fun c =>
        if c.index = newLocked.index then some (.locked newLocked) else none }

/-- Drop the cheques that a squash squashes; it must be worth as much as what it replaces. -/
def applySquash (self : Receipt) (squash : Squash .verified) : Except ReceiptError Receipt :=
  let squashed := self.cheques.filter fun c => squash.isIndexSquashed c.index
  if squash.amount < self.squash.amount + Word.sum (squashed.map Cheque.amount) then
    .error .squashAmountLess
  else .ok ⟨squash, self.cheques.filter fun c => !squash.isIndexSquashed c.index⟩

lemma applyLocked_eq_ok {self self' : Receipt} {locked : Locked .verified} :
    self.applyLocked locked = .ok self' ↔
      locked.index = self.maxIndex + 1 ∧
        self' = { self with cheques := self.cheques ++ [.locked locked] } := by
  simp only [applyLocked]
  split_ifs with h
  · simp [h]
  · simp [not_not.mp h, eq_comm]

lemma applySecret_eq_ok {crypto : Crypto} {self self' : Receipt} {secret : Secret} :
    self.applySecret crypto secret = .ok self' ↔
      self.cheques.any (lockedBy crypto secret) = true ∧
        self' = { self with cheques := self.cheques.map (unlockCheque crypto secret) } := by
  simp only [applySecret]
  split_ifs with h
  · simp [h, eq_comm]
  · simp [h]

/-- What a replacement does: the first cheque of the index is a locked one, and makes way for one
with its lock, for more and for longer. -/
lemma applyReplace_eq_ok {self self' : Receipt} {newLocked : Locked .verified} :
    self.applyReplace newLocked = .ok self' ↔
      ∃ (before after : List (Cheque .verified)) (oldLocked : Locked .verified),
        self.cheques = before ++ .locked oldLocked :: after ∧
        (∀ c ∈ before, c.index ≠ newLocked.index) ∧ oldLocked.index = newLocked.index ∧
        newLocked.body.lock = oldLocked.body.lock ∧ oldLocked.amount < newLocked.amount ∧
        oldLocked.timeout < newLocked.timeout ∧
        self' = { self with cheques := before ++ .locked newLocked :: after } := by
  have hput : ∀ {before after : List (Cheque .verified)} {c : Cheque .verified},
      (∀ c ∈ before, c.index ≠ newLocked.index) → c.index = newLocked.index →
      (before ++ c :: after).replaceF (fun c =>
        if c.index = newLocked.index then some (Cheque.locked newLocked) else none) =
          before ++ .locked newLocked :: after := by
    intro before after c hbefore hc
    induction before with
    | nil => simp [hc]
    | cons b before ih =>
      obtain ⟨hb, hbefore⟩ := List.forall_mem_cons.mp hbefore
      simp [hb, ih hbefore]
  rw [applyReplace]
  constructor
  · intro h
    split at h
    · simp at h
    · simp at h
    · rename_i oldLocked hfind
      obtain ⟨hindex, before, after, hsplit, hbefore⟩ := List.find?_eq_some_iff_append.mp hfind
      have hindex : (Cheque.locked oldLocked).index = newLocked.index := by simpa using hindex
      have hbefore : ∀ c ∈ before, c.index ≠ newLocked.index := by simpa using hbefore
      split_ifs at h with hguard
      obtain ⟨hlock, hamount, htimeout⟩ := by simpa only [not_or, not_not, not_le] using hguard
      obtain rfl := Except.ok.inj h
      refine ⟨before, after, oldLocked, hsplit, hbefore, hindex, hlock, hamount, htimeout, ?_⟩
      rw [hsplit, hput hbefore hindex]
  · rintro ⟨before, after, oldLocked, hsplit, hbefore, hindex, hlock, hamount, htimeout, rfl⟩
    have hindex : (Cheque.locked oldLocked).index = newLocked.index := hindex
    have hfind : self.cheques.find? (fun c => c.index = newLocked.index) =
        some (.locked oldLocked) :=
      List.find?_eq_some_iff_append.mpr ⟨by simpa using hindex, before, after, hsplit, by
        simpa using hbefore⟩
    have hguard : ¬(newLocked.body.lock ≠ oldLocked.body.lock ∨
        newLocked.amount ≤ oldLocked.amount ∨ newLocked.timeout ≤ oldLocked.timeout) := by
      simpa only [not_or, not_not, not_le] using ⟨hlock, hamount, htimeout⟩
    simp only [hfind]
    rw [if_neg hguard, hsplit, hput hbefore hindex]

lemma applySquash_eq_ok {self self' : Receipt} {squash : Squash .verified} :
    self.applySquash squash = .ok self' ↔
      ¬squash.amount < self.squash.amount + Word.sum
          ((self.cheques.filter fun c => squash.isIndexSquashed c.index).map Cheque.amount) ∧
        self' = ⟨squash, self.cheques.filter fun c => !squash.isIndexSquashed c.index⟩ := by
  simp only [applySquash]
  split_ifs with h
  · simp [h]
  · simp [h, eq_comm]

/-- What is unlocked stays the same cheque. -/
lemma unlockCheque_spec (crypto : Crypto) (secret : Secret) (cheque : Cheque .verified) :
    (unlockCheque crypto secret cheque).index = cheque.index ∧
      (unlockCheque crypto secret cheque).timeout = cheque.timeout := by
  unfold unlockCheque
  split
  · rename_i locked
    split
    · rename_i unlocked h
      simp only [Unlocked.tryFromLocked, ChequeBody.tryUnlocked, Option.map_eq_some_iff,
        Option.ite_none_left_eq_some] at h
      obtain ⟨body, ⟨-, hbody⟩, rfl⟩ := h
      obtain rfl := Option.some.inj hbody
      exact ⟨rfl, rfl⟩
    · exact ⟨rfl, rfl⟩
  · exact ⟨rfl, rfl⟩

/-- The cheques that a secret unlocks are those locked by its lock. -/
lemma unlockCheque_of_lockedBy {crypto : Crypto} {secret : Secret} {cheque : Cheque .verified}
    (h : lockedBy crypto secret cheque = true) :
    ∃ locked, cheque = .locked locked ∧ locked.body.lock = Lock.ofSecret crypto secret ∧
      unlockCheque crypto secret cheque =
        .unlocked ⟨{ locked.body with latch := secret }, locked.signature⟩ := by
  cases cheque with
  | unlocked cheque => exact absurd h (by simp [lockedBy, Cheque.asLocked])
  | locked locked =>
    have hlock : locked.body.lock = Lock.ofSecret crypto secret := by
      simpa [lockedBy, Cheque.asLocked] using h
    refine ⟨locked, rfl, hlock, ?_⟩
    simp [unlockCheque, Unlocked.tryFromLocked, ChequeBody.tryUnlocked, hlock]

lemma unlockCheque_of_not_lockedBy {crypto : Crypto} {secret : Secret} {cheque : Cheque .verified}
    (h : lockedBy crypto secret cheque = false) : unlockCheque crypto secret cheque = cheque := by
  cases cheque with
  | unlocked cheque => rfl
  | locked locked =>
    have hlock : Lock.ofSecret crypto secret ≠ locked.body.lock := by
      simpa [lockedBy, Cheque.asLocked, eq_comm] using h
    simp [unlockCheque, Unlocked.tryFromLocked, ChequeBody.tryUnlocked, hlock]

/-- What is unlocked keeps the lock that was signed. -/
lemma lock_unlockCheque (crypto : Crypto) (secret : Secret) (cheque : Cheque .verified) :
    (unlockCheque crypto secret cheque).lock crypto = cheque.lock crypto := by
  cases h : lockedBy crypto secret cheque with
  | false => rw [unlockCheque_of_not_lockedBy h]
  | true =>
    obtain ⟨locked, rfl, hlock, heq⟩ := unlockCheque_of_lockedBy h
    rw [heq]
    exact hlock.symm

/-- Once its own secret is applied a cheque is no longer locked; no other secret matters. -/
lemma lockedBy_unlockCheque (crypto : Crypto) (secret secret' : Secret)
    (cheque : Cheque .verified) :
    lockedBy crypto secret' (unlockCheque crypto secret cheque) =
      (lockedBy crypto secret' cheque &&
        decide (Lock.ofSecret crypto secret' ≠ Lock.ofSecret crypto secret)) := by
  cases h : lockedBy crypto secret cheque with
  | true =>
    obtain ⟨locked, rfl, hlock, heq⟩ := unlockCheque_of_lockedBy h
    simp [heq, lockedBy, Cheque.asLocked, hlock, eq_comm]
  | false =>
    rw [unlockCheque_of_not_lockedBy h]
    cases h' : lockedBy crypto secret' cheque with
    | false => rfl
    | true =>
      -- the two secrets have different locks
      obtain ⟨locked, rfl, hlock, -⟩ := unlockCheque_of_lockedBy h'
      simpa [lockedBy, Cheque.asLocked, hlock] using h

lemma amount_unlockCheque (crypto : Crypto) (secret : Secret) (cheque : Cheque .verified) :
    (unlockCheque crypto secret cheque).amount = cheque.amount := by
  cases h : lockedBy crypto secret cheque with
  | false => rw [unlockCheque_of_not_lockedBy h]
  | true =>
    obtain ⟨locked, rfl, -, heq⟩ := unlockCheque_of_lockedBy h
    rw [heq]
    rfl

lemma index_unlockCheque (crypto : Crypto) (secret : Secret) (cheque : Cheque .verified) :
    (unlockCheque crypto secret cheque).index = cheque.index :=
  (unlockCheque_spec crypto secret cheque).1

lemma timeout_unlockCheque (crypto : Crypto) (secret : Secret) (cheque : Cheque .verified) :
    (unlockCheque crypto secret cheque).timeout = cheque.timeout :=
  (unlockCheque_spec crypto secret cheque).2

lemma map_index_unlock (crypto : Crypto) (secret : Secret) (cheques : List (Cheque .verified)) :
    (cheques.map (unlockCheque crypto secret)).map Cheque.index = cheques.map Cheque.index := by
  rw [List.map_map]
  exact List.map_congr_left fun c _ => index_unlockCheque crypto secret c

/-! ### Proposals -/

/-- The index that the next cheque is to have. -/
def proposeIndex (self : Receipt) : UInt64 := self.maxIndex + 1

/-- The indexes that a receipt stands for: the squash's and the cheques'. -/
def indexes (self : Receipt) : List UInt64 := self.squash.index :: self.cheques.map Cheque.index

lemma maxIndex_mem (self : Receipt) : self.maxIndex ∈ self.indexes := by
  rw [maxIndex, indexes]
  rcases List.eq_nil_or_concat self.cheques with hnil | ⟨init, last, hlast⟩
  · simp [hnil]
  · rw [hlast, List.concat_eq_append]
    rcases max_choice self.squash.index last.index with h | h <;> simp [h]

/-- Where the cheques are in order, the last one has the greatest index. -/
lemma le_maxIndex {self : Receipt} (hsorted : (self.cheques.map Cheque.index).Pairwise (· < ·))
    {i : UInt64} (hi : i ∈ self.indexes) : i ≤ self.maxIndex := by
  rw [maxIndex]
  rcases List.mem_cons.mp hi with rfl | hi
  · exact le_max_left _ _
  rcases List.eq_nil_or_concat self.cheques with hnil | ⟨init, last, hlast⟩
  · simp [hnil] at hi
  · rw [hlast, List.concat_eq_append, List.map_append, List.map_singleton] at hi hsorted
    have hle : i ≤ last.index := by
      rcases List.mem_append.mp hi with hi | hi
      · exact ((List.pairwise_append.mp hsorted).2.2 i hi _ (List.mem_singleton_self _)).le
      · exact (List.mem_singleton.mp hi).le
    rw [hlast, List.concat_eq_append]
    simpa using Or.inr hle

/-! ### Order -/

/-- A cheque above all others goes last. -/
lemma sorted_append_locked {cheques : List (Cheque .verified)} {locked : Locked .verified}
    (hsorted : (cheques.map Cheque.index).Pairwise (· < ·))
    (hlt : ∀ i ∈ cheques.map Cheque.index, i < locked.index) :
    ((cheques ++ [Cheque.locked locked]).map Cheque.index).Pairwise (· < ·) := by
  rw [List.map_append, List.pairwise_append]
  refine ⟨hsorted, List.pairwise_singleton _ _, fun i hi j hj => ?_⟩
  obtain rfl := List.mem_singleton.mp hj
  exact hlt i hi

/-- The cheques are in order, and no index is the greatest word. -/
structure Ordered (receipt : Receipt) : Prop where
  sorted : (receipt.cheques.map Cheque.index).Pairwise (· < ·)
  below : ∀ i ∈ receipt.indexes, i ≠ Word.maxValue

namespace Ordered

variable {self self' : Receipt}

lemma lt_proposeIndex (h : self.Ordered) : self.maxIndex < self.proposeIndex :=
  Word.lt_succ (h.below _ self.maxIndex_mem)

/-- The proposed index is above all others. -/
lemma lt_of_mem (h : self.Ordered) {i : UInt64} (hi : i ∈ self.indexes) : i < self.proposeIndex :=
  (le_maxIndex h.sorted hi).trans_lt h.lt_proposeIndex

lemma new {squash : Squash .verified} (hmax : squash.index ≠ Word.maxValue) :
    (Receipt.new squash).Ordered := by
  refine ⟨List.Pairwise.nil, fun i hi => ?_⟩
  obtain rfl := List.mem_singleton.mp hi
  exact hmax

lemma applySquash (h : self.Ordered) {squash : Squash .verified}
    (hmax : squash.index ≠ Word.maxValue) (happly : self.applySquash squash = .ok self') :
    self'.Ordered := by
  obtain ⟨-, rfl⟩ := applySquash_eq_ok.mp happly
  refine ⟨h.sorted.sublist (List.filter_sublist.map _), fun i hi => ?_⟩
  rcases List.mem_cons.mp hi with rfl | hi
  · exact hmax
  · exact h.below i (List.mem_cons_of_mem _ ((List.filter_sublist.map _).subset hi))

lemma applyLocked (h : self.Ordered) {locked : Locked .verified}
    (hmax : locked.index ≠ Word.maxValue) (happly : self.applyLocked locked = .ok self') :
    self'.Ordered := by
  obtain ⟨hnext, rfl⟩ := applyLocked_eq_ok.mp happly
  refine ⟨sorted_append_locked h.sorted fun i hi => ?_, fun i hi => ?_⟩
  · rw [hnext]
    exact h.lt_of_mem (List.mem_cons_of_mem _ hi)
  · rw [indexes, List.map_append, ← List.cons_append] at hi
    rcases List.mem_append.mp hi with hi | hi
    · exact h.below i hi
    · exact List.mem_singleton.mp hi ▸ hmax

/-- Secrets unlock cheques, and leave the indexes. -/
lemma unlock (h : self.Ordered) (crypto : Crypto) (secret : Secret) :
    ({ self with cheques := self.cheques.map (unlockCheque crypto secret) } : Receipt).Ordered := by
  refine ⟨?_, ?_⟩
  · rw [map_index_unlock]
    exact h.sorted
  · rw [indexes, map_index_unlock]
    exact h.below

end Ordered

/-! ### Squash proposals -/

/-- Squash cheques one after another. -/
def squashAll (usizeBits : ℕ) (body : SquashBody) :
    List (Unlocked .verified) → Except ReceiptError SquashBody
  | [] => .ok body
  | u :: unlockeds =>
    match body.squash usizeBits u.index u.amount with
    | .ok body => squashAll usizeBits body unlockeds
    | .error _ => .error (.includesCheque u.index)

/-- The squash, with all the unlocked cheques squashed. -/
def proposeSquashBody (self : Receipt) (usizeBits : ℕ) : Except ReceiptError SquashBody :=
  squashAll usizeBits self.squash.body self.unlockeds

/-- Propose the squash of all unlocked cheques. -/
def proposeSquash (self : Receipt) (usizeBits : ℕ) : Except ReceiptError SquashProposal := do
  let proposal ← self.proposeSquashBody usizeBits
  return {
    proposal
    current := self.squash.withState .unverified
    unlockeds := self.unlockeds.map (ChequeSigned.withState .unverified)
    lockeds := self.lockeds.map (ChequeSigned.withState .unverified) }

end Receipt

/-! ### What a proposal squashes -/

/-- The cheques that are squashed once the unlocked ones are. -/
def Receipt.squashable (self : Receipt) : List (Cheque .verified) :=
  self.cheques.filter fun c =>
    self.squash.isIndexSquashed c.index || self.unlockeds.any fun u => u.index = c.index

section Proposal

variable {usizeBits : ℕ} {body body' : SquashBody} {unlockeds : List (Unlocked .verified)}

/-- Unlocked cheques are squashed as their bodies are. -/
lemma Receipt.squashAll_iff :
    squashAll usizeBits body unlockeds = .ok body' ↔
      (unlockeds.map ChequeSigned.body).foldlM (SquashBody.squashCheque usizeBits) body =
        .ok body' := by
  induction unlockeds generalizing body with
  | nil => simp [squashAll, Result.pure_eq_ok]
  | cons u unlockeds ih =>
    rw [List.map_cons, List.foldlM_cons, Result.bind_eq_ok, squashAll]
    change _ ↔ ∃ next, body.squash usizeBits u.index u.amount = .ok next ∧ _
    cases body.squash usizeBits u.index u.amount with
    | ok next => simp [ih]
    | error e => simp

/-- Squashing cheques squashes their indexes, which are distinct and were not squashed
before, and nothing else. -/
theorem Receipt.squashAll_eq_ok (hwf : body.WellFormed)
    (h : squashAll usizeBits body unlockeds = .ok body') :
    body'.WellFormed ∧ body.index ≤ body'.index ∧
      body'.amount = body.amount + Word.sum (unlockeds.map ChequeSigned.amount) ∧
      (∀ i, body'.Squashed i ↔ body.Squashed i ∨ ∃ u ∈ unlockeds, u.index = i) ∧
      ∀ u ∈ unlockeds, ¬body.Squashed u.index := by
  obtain ⟨hwf', hindex, hamount, hsquashed, hnew⟩ :=
    SquashBody.squashCheques_eq_ok hwf (squashAll_iff.mp h)
  refine ⟨hwf', hindex, ?_, fun i => ?_, fun u hu => hnew _ (List.mem_map_of_mem hu)⟩
  · rw [hamount, List.map_map]
    rfl
  · simp only [hsquashed, List.mem_map, exists_exists_and_eq_and]
    rfl

/-- A proposal is the current body just when there is nothing to squash. -/
lemma Receipt.squashAll_eq_self (hwf : body.WellFormed)
    (h : squashAll usizeBits body unlockeds = .ok body') : body = body' ↔ unlockeds = [] := by
  constructor
  · rintro rfl
    obtain ⟨-, -, -, hsquashed, hnew⟩ := squashAll_eq_ok hwf h
    refine List.eq_nil_iff_forall_not_mem.mpr fun u hu => ?_
    exact hnew u hu ((hsquashed u.index).mpr (Or.inr ⟨u, hu, rfl⟩))
  · rintro rfl
    exact Except.ok.inj h

variable {receipt : Receipt} {st : SquashProposal}

lemma Receipt.proposeSquash_eq_ok :
    receipt.proposeSquash usizeBits = .ok st ↔
      ∃ proposal, squashAll usizeBits receipt.squash.body receipt.unlockeds = .ok proposal ∧
        st = {
          proposal
          current := receipt.squash.withState .unverified
          unlockeds := receipt.unlockeds.map (ChequeSigned.withState .unverified)
          lockeds := receipt.lockeds.map (ChequeSigned.withState .unverified) } := by
  simp only [proposeSquash, proposeSquashBody, Result.bind_eq_ok, Result.pure_eq_ok, @eq_comm _ st]

/-- A receipt without unlocked cheques proposes what it has. -/
lemma Receipt.proposeSquash_of_nil (h : receipt.unlockeds = []) :
    ∃ st, receipt.proposeSquash usizeBits = .ok st :=
  ⟨_, proposeSquash_eq_ok.mpr ⟨receipt.squash.body, by rw [h, squashAll], rfl⟩⟩

/-- A proposal is worth what is owed, and squashes the unlocked cheques beside what is
squashed. -/
theorem Receipt.proposal_spec (hwf : receipt.squash.body.WellFormed)
    (h : receipt.proposeSquash usizeBits = .ok st) :
    st.proposal.WellFormed ∧ st.proposal.amount = receipt.owed ∧
      (receipt.squash.body = st.proposal ↔ receipt.unlockeds = []) ∧
      ∀ i, st.proposal.isIndexSquashed i =
        (receipt.squash.isIndexSquashed i || receipt.unlockeds.any fun u => u.index = i) := by
  obtain ⟨proposal, hsquash, rfl⟩ := proposeSquash_eq_ok.mp h
  obtain ⟨hwf', -, hamount, hsquashed, -⟩ := squashAll_eq_ok hwf hsquash
  refine ⟨hwf', hamount, squashAll_eq_self hwf hsquash, fun i => ?_⟩
  rw [Bool.eq_iff_iff, Bool.or_eq_true, SquashBody.isIndexSquashed_iff hwf', hsquashed,
    ← SquashBody.isIndexSquashed_iff hwf]
  simp [Squash.isIndexSquashed]

variable {squash : Squash .verified} {receipt' : Receipt}

/-- The squash of a proposal is let in when it is worth the cheques that it squashes. -/
theorem Receipt.applySquash_proposal (hwf : receipt.squash.body.WellFormed)
    (h : receipt.proposeSquash usizeBits = .ok st) (hbody : squash.body = st.proposal) :
    (∃ receipt', receipt.applySquash squash = .ok receipt') ↔
      receipt.squash.amount + Word.sum (receipt.squashable.map Cheque.amount) ≤ receipt.owed := by
  obtain ⟨-, hamount, -, hsquashed⟩ := proposal_spec hwf h
  have hamount' : squash.amount = receipt.owed := (congrArg SquashBody.amount hbody).trans hamount
  have hsquashable : (receipt.cheques.filter fun c => squash.isIndexSquashed c.index) =
      receipt.squashable := by
    simp only [squashable, Squash.isIndexSquashed, hbody, hsquashed]
  simp only [applySquash_eq_ok, hamount', hsquashable, not_lt, exists_and_left, exists_eq, and_true]

/-- The squash of a proposal leaves no unlocked cheque. -/
theorem Receipt.unlockeds_applySquash (hwf : receipt.squash.body.WellFormed)
    (h : receipt.proposeSquash usizeBits = .ok st) (hbody : squash.body = st.proposal)
    (happly : receipt.applySquash squash = .ok receipt') :
    receipt'.squash = squash ∧ receipt'.unlockeds = [] := by
  obtain ⟨-, -, -, hsquashed⟩ := proposal_spec hwf h
  obtain ⟨-, rfl⟩ := applySquash_eq_ok.mp happly
  refine ⟨rfl, List.eq_nil_iff_forall_not_mem.mpr fun u hu => ?_⟩
  -- an unlocked cheque that is left would be one that is squashed
  obtain ⟨c, hc, hu⟩ := List.mem_filterMap.mp hu
  obtain ⟨hc, hnot⟩ := List.mem_filter.mp hc
  have hmem : u ∈ receipt.unlockeds := List.mem_filterMap.mpr ⟨c, hc, hu⟩
  have hindex : u.index = c.index := by
    cases c with
    | unlocked u' =>
      rw [← Option.some.inj hu]
      rfl
    | locked l => exact absurd hu (by simp [Cheque.asUnlocked])
  have hany : (receipt.unlockeds.any fun u => u.index = c.index) = true :=
    List.any_eq_true.mpr ⟨u, hmem, by simpa using hindex⟩
  simp [Squash.isIndexSquashed, hbody, hsquashed, hany] at hnot

end Proposal

/-! ### On the wire -/

namespace Receipt

/-- The bytes that are stored of a receipt. -/
def encode (self : Receipt) : Bytes :=
  Cbor.array 2 ++ self.squash.encode ++ Cbor.vec Cheque.encode self.cheques

/-- What is read from a trusted source is not verified again. -/
def decode (b : Bytes) : Option (Receipt × Bytes) := do
  let (left, b) ← Cbor.readArray b
  let (squash, left, b) ← Cbor.readField Squash.decode none left b
  let (cheques, left, b) ← Cbor.readField (Cbor.readItems Cheque.decode) none left b
  let (_, b) ← Cbor.readRest left b
  return (⟨squash.withState .verified, cheques.map (Cheque.withState .verified)⟩, b)

/-- The receipt as it comes off the wire: the timeouts in whole milliseconds. -/
def wire (self : Receipt) : Receipt :=
  { self with cheques := self.cheques.map fun c => c.wire.withState .verified }

/-- A receipt is read back when its squash is well-formed, and not at all otherwise. -/
lemma decode_encode (self : Receipt) (hlen : self.cheques.length < 256 ^ 8) (b : Bytes) :
    decode (self.encode ++ b) =
      if self.squash.body.WellFormed then some (self.wire, b) else none := by
  have hcheques : Cbor.readItems Cheque.decode (Cbor.vec Cheque.encode self.cheques ++ b) =
      some (self.cheques.map Cheque.wire, b) :=
    Cbor.readItems_vec b hlen fun c _ => (Cheque.reads_cheque c).1
  have harray := Cbor.readArray_array (n := 2)
    (self.squash.encode ++ (Cbor.vec Cheque.encode self.cheques ++ b)) (by norm_num)
  simp only [decode, encode, List.append_assoc, harray, Option.bind_eq_bind, Option.bind_some,
    Cbor.readField_succ, Squash.decode_encode]
  split_ifs with h
  · simp only [Option.map_some, Option.bind_some, Cbor.readField_succ, hcheques,
      Cbor.readRest_zero, Option.pure_def, wire, List.map_map]
    rfl
  · rfl

/-- What comes off the wire is what was put on it when the timeouts are in whole
milliseconds. -/
lemma wire_eq_self {self : Receipt} :
    self.wire = self ↔ ∀ c ∈ self.cheques, c.timeout.Canonical := by
  have hcheque : ∀ c : Cheque .verified, c.wire.withState .verified = c ↔ c.timeout.Canonical := by
    rintro (⟨body, signature⟩ | ⟨body, signature⟩)
    · refine Iff.trans ?_ (@ChequeBody.wire_eq_self _ body)
      simp [Cheque.wire, Cheque.withState, ChequeSigned.wire, ChequeSigned.withState]
    · refine Iff.trans ?_ (@ChequeBody.wire_eq_self _ body)
      simp [Cheque.wire, Cheque.withState, ChequeSigned.wire, ChequeSigned.withState]
  obtain ⟨squash, cheques⟩ := self
  simp only [wire, mk.injEq, true_and]
  induction cheques with
  | nil => simp
  | cons c cheques ih => simp [hcheque, ih]

end Receipt

end Konduit.Tmp
