import Konduit.Server.Quotes
import Konduit.Tmp.Proposals

/-!
# The next squash

The server answers a pay request with the squash that it expects next.  In every state of a run
there is one, worth what is owed, and it is let in once it is signed, just when few enough indexes
below an unlocked cheque's are neither squashed nor unlocked (`proposesNext_iff`): the bound on the
held cheques does not count what the consumer's own squashes exclude or leave behind.
-/

open Lib

namespace Konduit.Server

open Data Tmp

/-- The next squash: it squashes the unlocked cheques besides, for what is owed, and once it is
signed it leaves the locked ones. -/
structure NextSquash (crypto : Crypto) (channel : Channel) (receipt : Receipt) (body : SquashBody) :
    Prop where
  amount : body.amount = receipt.owed
  squashed : ∀ i, body.isIndexSquashed i = true ↔
    receipt.squash.isIndexSquashed i = true ∨ i ∈ receipt.unlockeds.map ChequeSigned.index
  applied : ∀ squash verified, squash.body = body →
    Squash.tryVerify crypto channel.key channel.tag squash = .ok verified →
      channel.applySquash crypto squash = .ok { channel with
        receipt := some ⟨verified, receipt.cheques.filter fun c => c.asUnlocked.isNone⟩ }

/-- The channel has a next squash. -/
def Channel.ProposesNext (crypto : Crypto) (usizeBits : ℕ) (self : Channel) : Prop :=
  ∀ receipt ∈ self.receipt, ∃ body, receipt.proposeSquashBody usizeBits = .ok body ∧
    NextSquash crypto self receipt body

/-- The body of a squash is well-formed. -/
def ChannelEvent.WellFormed : ChannelEvent → Prop
  | .squash new => new.body.WellFormed
  | _ => True

/-- What a receipt keeps in the run of a channel. -/
structure Steady (receipt : Receipt) : Prop where
  ordered : receipt.Ordered
  tidy : receipt.Tidy
  squash : receipt.squash.body.WellFormed

/-- The receipt is steady, if there is one. -/
def Channel.Steady (self : Channel) : Prop := ∀ receipt ∈ self.receipt, Server.Steady receipt

section Runs

variable {crypto : Crypto} {channel channel' : Channel} {receipt receipt' : Receipt}
  {usizeBits : ℕ}

lemma Steady.applySquash (h : Steady receipt) {squash : Squash .verified}
    (hmax : squash.index ≠ Word.maxValue) (hwf : squash.body.WellFormed)
    (happly : receipt.applySquash squash = .ok receipt') : Steady receipt' := by
  refine ⟨h.ordered.applySquash hmax happly, h.tidy.applySquash happly, ?_⟩
  obtain ⟨-, rfl⟩ := Receipt.applySquash_eq_ok.mp happly
  exact hwf

/-- As no index is the greatest word, the next index does not wrap. -/
lemma Steady.applyLocked (h : Steady receipt) {locked : Locked .verified}
    (hmax : locked.index ≠ Word.maxValue) (happly : receipt.applyLocked locked = .ok receipt') :
    Steady receipt' := by
  have hexact : (Receipt.Call.locked locked).Exact receipt := by
    have hlt := (UInt64.lt_iff_toNat_lt).mp h.ordered.lt_proposeIndex
    have hsucc : (receipt.maxIndex + 1).toNat = receipt.maxIndex.toNat + 1 :=
      Word.toNat_succ (h.ordered.below _ receipt.maxIndex_mem)
    rw [Receipt.Call.Exact, ← UInt64.toNat_inj, hsucc]
  refine ⟨h.ordered.applyLocked hmax happly, h.tidy.applyLocked hexact happly, ?_⟩
  obtain ⟨-, rfl⟩ := Receipt.applyLocked_eq_ok.mp happly
  exact h.squash

lemma Steady.unlock (h : Steady receipt) (secret : Secret) :
    Steady { receipt with
      cheques := receipt.cheques.map (Receipt.unlockCheque crypto secret) } := by
  refine ⟨h.ordered.unlock crypto secret, h.tidy.of_sublist rfl ?_, h.squash⟩
  rw [Receipt.map_index_unlock]

/-- One step keeps the receipt steady. -/
lemma Channel.Steady.step {event : ChannelEvent} (h : channel.Steady) (hindexed : event.Indexed)
    (hwf : event.WellFormed) (happly : channel.apply crypto event = .ok channel') :
    channel'.Steady := by
  refine Channel.forall_receipt_of_apply h ?_ ?_ (fun _ secret h => h.unlock secret) happly
  · rintro squash rfl
    have hmax : (squash.withState .verified).index ≠ Word.maxValue := hindexed
    exact ⟨⟨.new hmax, ⟨List.Pairwise.nil, by simp [Receipt.new]⟩, hwf⟩,
      fun _ _ h => h.applySquash hmax hwf⟩
  · rintro locked rfl
    have hmax : (locked.withState .verified).index ≠ Word.maxValue := hindexed
    exact fun _ _ h => h.applyLocked hmax

/-- What a steady receipt proposes is its next squash. -/
lemma Channel.nextSquash (hreceipt : channel.receipt = some receipt) (h : Server.Steady receipt)
    {body : SquashBody} (hbody : receipt.proposeSquashBody usizeBits = .ok body) :
    NextSquash crypto channel receipt body := by
  obtain ⟨hamount, hsquashed⟩ := Receipt.proposeSquashBody_spec h.squash hbody
  refine ⟨hamount, hsquashed, fun squash verified hsquash hverify => ?_⟩
  have hverified : verified.body = body := by
    rw [(Squash.tryVerify_eq_ok.mp hverify).2]
    exact hsquash
  have htaken := Receipt.applySquash_of_proposal h.tidy h.squash hbody hverified
  simp only [applySquash, Result.bind_eq_ok, Result.mapError_eq_ok]
  refine ⟨verified, hverify, ?_⟩
  simp only [hreceipt, Result.bind_eq_ok, Result.mapError_eq_ok, Result.pure_eq_ok]
  exact ⟨_, htaken, rfl⟩

/-- **The next squash.**  In every state of a run from before the receipt in which the squashes are
well-formed and no index is the greatest word, there is a next squash just when few enough indexes
are skipped. -/
theorem proposesNext_iff {events : List ChannelEvent} (hbits : 32 ≤ usizeBits)
    (hnone : channel.receipt = none)
    (hrun : Trace (fun channel event channel' => event.Indexed ∧ event.WellFormed ∧
      channel.apply crypto event = .ok channel') channel events channel') :
    channel'.ProposesNext crypto usizeBits ↔
      ∀ receipt ∈ channel'.receipt, receipt.FewSkipped := by
  have hsteady : channel'.Steady := by
    refine Trace.invariant (P := fun _ channel => channel.Steady) ?_ ?_ hrun
    · simp [Channel.Steady, hnone]
    · rintro _ channel event channel' - h ⟨hindexed, hwf, happly⟩
      exact h.step hindexed hwf happly
  refine forall₂_congr fun receipt hreceipt => ?_
  have h := hsteady receipt hreceipt
  rw [← Receipt.proposeSquashBody_isOk_iff hbits h.tidy h.squash]
  exact exists_congr fun body => and_iff_left_of_imp (Channel.nextSquash hreceipt h)

end Runs

namespace Sample

/-- A cheque that the secret of 32 zero bytes unlocks. -/
def revealedAt (index : UInt64) : Locked .unverified :=
  ⟨⟨index, 1, .fromSecs 100_000, ⟨Crypto.zeroLock⟩⟩, ⟨BytesN.fill 64 0⟩⟩

/-- A squash that excludes the indexes from one to ten. -/
def excluding : Squash .unverified :=
  ⟨⟨0, 11, ⟨[1, 2, 3, 4, 5, 6, 7, 8, 9, 10]⟩⟩, ⟨BytesN.fill 64 0⟩⟩

/-- The cheque once its secret is known. -/
def unlockedAt (index : UInt64) : Cheque .verified :=
  .unlocked ⟨⟨index, 1, .fromSecs 100_000, ⟨BytesN.fill 32 0⟩⟩, ⟨BytesN.fill 64 0⟩⟩

/-- This squash, two cheques, and the secret of the second. -/
def skipping : List ChannelEvent :=
  [.squash excluding, .locked (chequeAt 12), .locked (revealedAt 13), .secret ⟨BytesN.fill 32 0⟩]

end Sample

/-- The null squash and an unlocked cheque. -/
theorem proposesNext_of_secret :
    (Sample.opened (Sample.squashTo 0 0) [Sample.unlockedAt 1]).ProposesNext .noCrypto 64 := by
  have hsquash : (ChannelEvent.squash (Sample.squashTo 0 0)).Indexed := by
    show (0 : UInt64) ≠ Word.maxValue
    decide
  have hcheque : (ChannelEvent.locked (Sample.revealedAt 1)).Indexed := by
    show (1 : UInt64) ≠ Word.maxValue
    decide
  have hlocked : (ChannelEvent.locked (Sample.revealedAt 1)).WellFormed := trivial
  have hsecret : (ChannelEvent.secret ⟨BytesN.fill 32 0⟩).Indexed ∧
      (ChannelEvent.secret ⟨BytesN.fill 32 0⟩).WellFormed := ⟨trivial, trivial⟩
  refine (@proposesNext_iff .noCrypto Sample.unopened _ 64 _ (by norm_num) rfl (.snoc (.snoc (.snoc
    .nil ⟨hsquash, SquashBody.wellFormed_zero, rfl⟩) ⟨hcheque, hlocked, rfl⟩)
      ⟨hsecret.1, hsecret.2, rfl⟩)).mpr ?_
  intro receipt hreceipt
  obtain rfl := Option.some.inj hreceipt
  -- nothing is skipped: the null squash has index zero
  refine ⟨[], by simp, fun u hu i hi => ?_⟩
  obtain rfl := List.mem_singleton.mp hu
  obtain rfl : i = 0 := UInt64.toNat_inj.mp (Nat.lt_one_iff.mp hi)
  exact Or.inl rfl

/-- The held cheques are two, but eleven indexes are skipped on the way to the second. -/
theorem not_proposesNext_of_skipping : ∃ channel' receipt,
    Channel.Run .noCrypto Sample.unopened Sample.skipping channel' ∧
      channel'.receipt = some receipt ∧ Sample.excluding.body.WellFormed ∧
      receipt.proposeSquashBody 64 = .error (.includesCheque 13) ∧
      ¬channel'.ProposesNext .noCrypto 64 := by
  have herror : (⟨Sample.excluding.withState .verified,
      [.locked ((Sample.chequeAt 12).withState .verified), Sample.unlockedAt 13]⟩ :
        Receipt).proposeSquashBody 64 = .error (.includesCheque 13) := rfl
  refine ⟨_, _, .snoc (.snoc (.snoc (.snoc .nil rfl) rfl) rfl) rfl, rfl, by decide, herror,
    fun h => ?_⟩
  obtain ⟨body, hbody, -⟩ := h _ rfl
  exact absurd (herror.symm.trans hbody) (by simp)

end Konduit.Server
