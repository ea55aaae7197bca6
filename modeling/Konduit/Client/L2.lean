import Konduit.Tmp.Receipt

/-!
# Squashing with an adaptor

The consumer's side of a squash: from the adaptor's status it reckons what may be added to
the current squash, signs the proposal if that is enough, and goes on with the adaptor's
answer.  A signature binds the consumer, so every one should be for what the consumer owes
(`sync_sound_iff`).
-/

open Lib

namespace Konduit.L2

open Data Tmp

/-- The locks that the consumer expects to see, once it has recorded any. -/
structure Lockeds where
  locks : Option (List Lock)

/-- The predicate over locks that a sync is called with. -/
def Lockeds.asFilter (self : Lockeds) (lock : Lock) : Bool :=
  match self.locks with
  | some locks => decide (lock ∈ locks)
  | none => true

/-- The key that signs, and the tag if a channel is set. -/
structure Client where
  signingKey : SigningKey
  tag : Option Tag

/-- Why a sync stops. -/
inductive SyncError where
  | noTag
  | currentNotVerified
  | notOwed (proposed owed : UInt64)
  | transport
deriving DecidableEq

/-- A squash that was signed, and the adaptor's proposal it was signed for. -/
structure Signed where
  st : SquashProposal
  squash : Squash .verified
deriving DecidableEq

section Sync

variable (crypto : Crypto)

/-- The lock that the secret of a cheque opens. -/
def unlockedLock {V : VerifyState} (unlocked : Unlocked V) : Lock :=
  Lock.ofSecret crypto unlocked.body.latch

variable (knownLock : Lock → Bool)

/-- The unlockeds that are counted: past the current squash, and not a known lock. -/
def credited (st : SquashProposal) : List (Unlocked .unverified) :=
  st.unlockeds.filter fun u =>
    !decide (u.index ≤ st.current.index) && !knownLock (unlockedLock crypto u)

/-- What the credited cheques of a proposal come to. -/
def unlockedValue (st : SquashProposal) : UInt64 :=
  Word.sum ((credited crypto knownLock st).map ChequeSigned.amount)

variable (client : Client)

/-- One round: the squash to sign and the locks that are squashed by it, or nothing when the
current squash is what is proposed. -/
def round (tag : Tag) (st : SquashProposal) :
    Except SyncError (Option (Squash .verified × List Lock)) :=
  if st.current.body = st.proposal then .ok none
  else
    match st.current.tryVerify crypto (client.signingKey.verifyingKey crypto) tag with
    | .error _ => .error .currentNotVerified
    | .ok current =>
      let owed := current.amount + unlockedValue crypto knownLock st
      if st.proposal.amount > owed then .error (.notOwed st.proposal.amount owed)
      else
        let locks := (credited crypto knownLock st).map (unlockedLock crypto)
        .ok (some (Squash.make crypto client.signingKey tag st.proposal, locks))

variable (andConfirm : Bool)

/-- What is signed for a status: for an incomplete one, if the consumer confirms. -/
def signFor (status : SquashStatus) : Except SyncError (Option (Signed × List Lock)) :=
  match client.tag with
  | none => .error .noTag
  | some tag =>
    match status with
    | .complete | .stale _ => .ok none
    | .incomplete st =>
      if andConfirm then
        (round crypto knownLock client tag st).map fun r =>
          r.map fun (squash, locks) => (⟨st, squash⟩, locks)
      else .ok none

/-- Sync with an adaptor that answers each squash with the next of these statuses; where
they end, the transport fails.  What was signed comes with the result. -/
def sync (status : SquashStatus) : List SquashStatus → List Signed × Except SyncError (List Lock)
  | [] =>
    match signFor crypto knownLock client andConfirm status with
    | .error e => ([], .error e)
    | .ok none => ([], .ok [])
    | .ok (some (signed, _)) => ([signed], .error .transport)
  | res :: responses =>
    match signFor crypto knownLock client andConfirm status with
    | .error e => ([], .error e)
    | .ok none => ([], .ok [])
    | .ok (some (signed, locks)) =>
      let (extraSigned, result) := sync res responses
      (signed :: extraSigned, result.map fun extra => locks ++ extra)

end Sync

/-! ### What may be signed -/

section Sound

variable (crypto : Crypto) (client : Client) (tag : Tag) (lockeds : Lockeds)

/-- What a round checks before it signs. -/
structure Signs (knownLock : Lock → Bool) (st : SquashProposal) : Prop where
  changed : st.current.body ≠ st.proposal
  current : ∃ verified,
    st.current.tryVerify crypto (client.signingKey.verifyingKey crypto) tag = .ok verified
  owed : st.proposal.amount ≤ st.current.amount + unlockedValue crypto knownLock st

/-- Of the statuses that an adaptor answers with, one that comes to be signed: it passes the
checks, and so do all before it. -/
inductive Reached (knownLock : Lock → Bool) : List SquashStatus → SquashProposal → Prop
  | head {st : SquashProposal} {statuses : List SquashStatus} :
      Signs crypto client tag knownLock st → Reached knownLock (.incomplete st :: statuses) st
  | tail {st st' : SquashProposal} {statuses : List SquashStatus} :
      Signs crypto client tag knownLock st → Reached knownLock statuses st' →
      Reached knownLock (.incomplete st :: statuses) st'

/-- The later squash has squashed whatever the earlier one has, and its index is not lower. -/
structure Advances (earlier later : SquashBody) : Prop where
  index : earlier.index ≤ later.index
  squashed : ∀ i, earlier.isIndexSquashed i = true → later.isIndexSquashed i = true

/-- What the consumer should be sure of when it signs a proposal. -/
structure Sound (st : SquashProposal) : Prop where
  current : ∃ verified,
    st.current.tryVerify crypto (client.signingKey.verifyingKey crypto) tag = .ok verified
  genuine : ∀ u ∈ credited crypto lockeds.asFilter st, ∃ verified,
    Unlocked.tryVerify crypto (client.signingKey.verifyingKey crypto) tag u = .ok verified
  expected : ∀ u ∈ credited crypto lockeds.asFilter st,
    lockeds.asFilter (unlockedLock crypto u) = true
  unsquashed : ∀ u ∈ credited crypto lockeds.asFilter st,
    st.current.isIndexSquashed u.index = false
  once : ((credited crypto lockeds.asFilter st).map ChequeSigned.index).Nodup
  owed : st.proposal.amount.toNat ≤ st.current.amount.toNat +
    ((credited crypto lockeds.asFilter st).map fun u => u.amount.toNat).sum
  squashed : ∀ u ∈ credited crypto lockeds.asFilter st,
    st.proposal.isIndexSquashed u.index = true
  advances : Advances st.current.body st.proposal

variable {crypto client tag lockeds} {andConfirm : Bool} {knownLock : Lock → Bool}

lemma round_eq_ok_some {st : SquashProposal} {squash : Squash .verified} {locks : List Lock} :
    round crypto knownLock client tag st = .ok (some (squash, locks)) ↔
      Signs crypto client tag knownLock st ∧
        squash = Squash.make crypto client.signingKey tag st.proposal ∧
        locks = (credited crypto knownLock st).map (unlockedLock crypto) := by
  rw [round]
  split_ifs with hbody
  · exact iff_of_false (by simp) fun h => h.1.changed hbody
  · cases hverify : st.current.tryVerify crypto (client.signingKey.verifyingKey crypto) tag with
    | error e =>
      refine iff_of_false (by simp) fun h => ?_
      obtain ⟨verified, hverified⟩ := h.1.current
      simp [hverify] at hverified
    | ok current =>
      have hamount : current.amount = st.current.amount := by
        rw [(Squash.tryVerify_eq_ok.mp hverify).2]
        rfl
      simp only [hamount]
      split_ifs with howed
      · exact iff_of_false (by simp) fun h => absurd howed (not_lt.mpr h.1.owed)
      · have hsigns : Signs crypto client tag knownLock st := ⟨hbody, ⟨_, hverify⟩, not_lt.mp howed⟩
        simp [hsigns, eq_comm]

/-- What a consumer that confirms signs for a status: a proposal that passes the checks. -/
lemma signFor_iff {status : SquashStatus} {signed : Signed} (htag : client.tag = some tag) :
    (∃ locks, signFor crypto knownLock client andConfirm status = .ok (some (signed, locks))) ↔
      andConfirm = true ∧ status = .incomplete signed.st ∧
        Signs crypto client tag knownLock signed.st ∧
        signed.squash = Squash.make crypto client.signingKey tag signed.st.proposal := by
  cases status with
  | complete => simp [signFor, htag]
  | stale st => simp [signFor, htag]
  | incomplete st =>
    cases andConfirm with
    | false => simp [signFor, htag]
    | true =>
      simp only [signFor, htag, if_true, true_and, SquashStatus.incomplete.injEq]
      constructor
      · rintro ⟨locks, h⟩
        rcases hround : round crypto knownLock client tag st with e | _ | ⟨squash, locks'⟩
        · simp [hround, Except.map] at h
        · simp [hround, Except.map] at h
        · simp only [hround, Except.map, Option.map_some, Except.ok.injEq, Option.some.injEq,
            Prod.mk.injEq] at h
          obtain ⟨rfl, rfl⟩ := h
          obtain ⟨hsigns, hsquash, -⟩ := round_eq_ok_some.mp hround
          exact ⟨rfl, hsigns, hsquash⟩
      · rintro ⟨rfl, hsigns, hsquash⟩
        have hround := round_eq_ok_some.mpr ⟨hsigns, hsquash, rfl⟩
        refine ⟨(credited crypto knownLock signed.st).map (unlockedLock crypto), ?_⟩
        simp only [hround, Except.map, Option.map_some]

/-- A sync signs for its status, and then for the answers. -/
lemma mem_sync {status : SquashStatus} {responses : List SquashStatus} {s : Signed} :
    s ∈ (sync crypto knownLock client andConfirm status responses).1 ↔
      ∃ signed, (∃ locks,
          signFor crypto knownLock client andConfirm status = .ok (some (signed, locks))) ∧
        (s = signed ∨ ∃ res rest, responses = res :: rest ∧
          s ∈ (sync crypto knownLock client andConfirm res rest).1) := by
  cases responses <;> rw [sync] <;>
    rcases signFor crypto knownLock client andConfirm status with e | _ | ⟨signed, locks⟩ <;> simp

lemma reached_cons {status : SquashStatus} {statuses : List SquashStatus} {st : SquashProposal} :
    Reached crypto client tag knownLock (status :: statuses) st ↔
      ∃ st', status = .incomplete st' ∧ Signs crypto client tag knownLock st' ∧
        (st = st' ∨ Reached crypto client tag knownLock statuses st) := by
  constructor
  · rintro (hsigns | ⟨hsigns, hreached⟩)
    · exact ⟨st, rfl, hsigns, Or.inl rfl⟩
    · exact ⟨_, rfl, hsigns, Or.inr hreached⟩
  · rintro ⟨st', rfl, hsigns, rfl | hreached⟩
    · exact .head hsigns
    · exact .tail hsigns hreached

lemma Reached.signs {statuses : List SquashStatus} {st : SquashProposal}
    (h : Reached crypto client tag knownLock statuses st) :
    Signs crypto client tag knownLock st := by
  induction h with
  | head hsigns => exact hsigns
  | tail _ _ ih => exact ih

/-- What a sync signs are the proposals that are reached, if that is so of the answers. -/
lemma mem_sync_step {responses : List SquashStatus} {s : Signed} (htag : client.tag = some tag)
    (ih : ∀ res rest, responses = res :: rest →
      (s ∈ (sync crypto knownLock client andConfirm res rest).1 ↔
        andConfirm = true ∧ Reached crypto client tag knownLock (res :: rest) s.st ∧
          s.squash = Squash.make crypto client.signingKey tag s.st.proposal))
    (status : SquashStatus) :
    s ∈ (sync crypto knownLock client andConfirm status responses).1 ↔
      andConfirm = true ∧ Reached crypto client tag knownLock (status :: responses) s.st ∧
        s.squash = Squash.make crypto client.signingKey tag s.st.proposal := by
  rw [mem_sync, reached_cons]
  simp only [signFor_iff htag]
  constructor
  · rintro ⟨signed, ⟨hconfirm, rfl, hsigns, hsquash⟩, rfl | ⟨res, rest, rfl, hs⟩⟩
    · exact ⟨hconfirm, ⟨_, rfl, hsigns, Or.inl rfl⟩, hsquash⟩
    · obtain ⟨-, hreached, hsquash⟩ := (ih res rest rfl).mp hs
      exact ⟨hconfirm, ⟨_, rfl, hsigns, Or.inr hreached⟩, hsquash⟩
  · rintro ⟨hconfirm, ⟨st, rfl, hsigns, hst | hreached⟩, hsquash⟩
    · exact ⟨s, ⟨hconfirm, by rw [hst], hst ▸ hsigns, hsquash⟩, Or.inl rfl⟩
    · refine ⟨⟨st, Squash.make crypto client.signingKey tag st.proposal⟩,
        ⟨hconfirm, rfl, hsigns, rfl⟩, Or.inr ?_⟩
      cases responses with
      | nil => cases hreached
      | cons res rest =>
        exact ⟨res, rest, rfl, (ih res rest rfl).mpr ⟨hconfirm, hreached, hsquash⟩⟩

/-- What a sync signs are the proposals that are reached. -/
lemma mem_sync_iff {status : SquashStatus} {responses : List SquashStatus} {s : Signed}
    (htag : client.tag = some tag) :
    s ∈ (sync crypto knownLock client andConfirm status responses).1 ↔
      andConfirm = true ∧ Reached crypto client tag knownLock (status :: responses) s.st ∧
        s.squash = Squash.make crypto client.signingKey tag s.st.proposal := by
  induction responses generalizing status with
  | nil => exact mem_sync_step htag (by simp) status
  | cons res responses ih =>
    refine mem_sync_step htag (fun res' rest h => ?_) status
    obtain ⟨rfl, rfl⟩ := List.cons.inj h
    exact ih

/-- What is counted does not have an expected lock. -/
lemma asFilter_of_mem_credited {st : SquashProposal} {u : Unlocked .unverified}
    (hu : u ∈ credited crypto lockeds.asFilter st) :
    lockeds.asFilter (unlockedLock crypto u) = false := by
  have := (List.mem_filter.mp hu).2
  simp only [Bool.and_eq_true, Bool.not_eq_true'] at this
  exact this.2

/-- A round that signs is sound just when it counts nothing and the proposal keeps what is
squashed. -/
lemma sound_iff {st : SquashProposal} (hsigns : Signs crypto client tag lockeds.asFilter st) :
    Sound crypto client tag lockeds st ↔
      (∀ u ∈ st.unlockeds, st.current.index < u.index →
        lockeds.asFilter (unlockedLock crypto u) = true) ∧
        Advances st.current.body st.proposal := by
  have hcounted : credited crypto lockeds.asFilter st = [] ↔
      ∀ u ∈ st.unlockeds, st.current.index < u.index →
        lockeds.asFilter (unlockedLock crypto u) = true := by
    simp [credited, List.filter_eq_nil_iff]
  rw [← hcounted]
  constructor
  · intro h
    refine ⟨List.eq_nil_iff_forall_not_mem.mpr fun u hu => ?_, h.advances⟩
    -- what is counted is not expected
    exact absurd (h.expected u hu) (by simp [asFilter_of_mem_credited hu])
  · rintro ⟨hnil, hadvances⟩
    have hvalue : unlockedValue crypto lockeds.asFilter st = 0 := by
      simp [unlockedValue, hnil]
    have howed := hsigns.owed
    rw [hvalue, UInt64.add_zero, UInt64.le_iff_toNat_le] at howed
    exact {
      current := hsigns.current
      genuine := by simp [hnil]
      expected := by simp [hnil]
      unsquashed := by simp [hnil]
      once := by simp [hnil]
      owed := howed.trans (Nat.le_add_right _ _)
      squashed := by simp [hnil]
      advances := hadvances }

end Sound

/-- **Signing.**  Whatever the adaptor answers, each squash that a sync signs is sound just
when, of the statuses that pass the checks one after another, none has an unlocked cheque past
its current squash with an unexpected lock, and each proposal keeps what is squashed. -/
theorem sync_sound_iff (crypto : Crypto) (client : Client) (lockeds : Lockeds) (andConfirm : Bool)
    (status : SquashStatus) (responses : List SquashStatus) :
    (∀ s ∈ (sync crypto lockeds.asFilter client andConfirm status responses).1,
        ∀ tag, client.tag = some tag → Sound crypto client tag lockeds s.st) ↔
      ∀ tag, client.tag = some tag → andConfirm = true →
        ∀ st, Reached crypto client tag lockeds.asFilter (status :: responses) st →
          (∀ u ∈ st.unlockeds, st.current.index < u.index →
            lockeds.asFilter (unlockedLock crypto u) = true) ∧
          Advances st.current.body st.proposal := by
  constructor
  · intro h tag htag hconfirm st hreached
    exact (sound_iff hreached.signs).mp
      (h ⟨st, Squash.make crypto client.signingKey tag st.proposal⟩
        ((mem_sync_iff htag).mpr ⟨hconfirm, hreached, rfl⟩) tag htag)
  · intro h s hs tag htag
    obtain ⟨hconfirm, hreached, -⟩ := (mem_sync_iff htag).mp hs
    exact (sound_iff hreached.signs).mpr (h tag htag hconfirm s.st hreached)

/-! ### A cheque that was never expected -/

namespace Sample

/-- A consumer with a key of zero bytes and the empty tag. -/
def client : Client := ⟨⟨BytesN.fill 32 0⟩, some ⟨[]⟩⟩

/-- An unlocked cheque over a million, of no known lock. -/
def unlocked : Unlocked .unverified :=
  ⟨⟨1, 1_000_000, .fromSecs 1, ⟨BytesN.fill 32 7⟩⟩, ⟨BytesN.fill 64 0⟩⟩

/-- The adaptor presents the cheque twice, and proposes to squash it for the sum. -/
def proposal : SquashProposal where
  proposal := ⟨2_000_000, 1, .empty⟩
  current := ⟨.zero, ⟨BytesN.fill 64 0⟩⟩
  unlockeds := [unlocked, unlocked]
  lockeds := []

end Sample

/-- A consumer that expects no cheque at all signs for one it is presented with twice. -/
theorem sync_not_sound :
    ∃ s ∈ (sync .noCrypto (Lockeds.mk (some [])).asFilter Sample.client true
        (.incomplete Sample.proposal) []).1,
      s.squash.body.amount = 2_000_000 ∧
        ¬Sound .noCrypto Sample.client ⟨[]⟩ (Lockeds.mk (some [])) s.st := by
  refine ⟨⟨Sample.proposal, Squash.make .noCrypto Sample.client.signingKey ⟨[]⟩
    Sample.proposal.proposal⟩, List.mem_singleton.mpr rfl, rfl, fun h => ?_⟩
  exact absurd (h.expected Sample.unlocked (by decide)) (by decide)

end Konduit.L2
