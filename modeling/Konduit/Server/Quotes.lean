import Konduit.Server.Solvency

/-!
# Quotes

A quote hands out an index for an amount, and the consumer answers with a cheque for it.  The
quoted index is the greater of the last one used on chain and the receipt's next one, while a
cheque has to have the receipt's next one, whatever was used on chain.  The two agree just when
the chain is behind the receipt (`quotesHonoured_iff`).
-/

open Lib

namespace Konduit.Server

open Data Tmp

/-- The retainer has no use of this index. -/
def Channel.Unspent (self : Channel) (index : UInt64) : Prop :=
  ∀ retainer ∈ self.retainer, index ∉ retainer.useds.map Used.index

/-- A quoted index is unused and a cheque for it is taken; and a cheque that is taken has an
index that may be quoted. -/
structure QuotesHonoured (crypto : Crypto) (channel : Channel) : Prop where
  unused : ∀ x index, channel.canCommit x = .ok index → channel.Unspent index ∧
    ∀ receipt ∈ channel.receipt, receipt.squash.isIndexSquashed index = false ∧
      index ∉ receipt.cheques.map Cheque.index
  taken : ∀ x index, channel.canCommit x = .ok index → ∀ locked verified,
    Locked.tryVerify crypto channel.key channel.tag locked = .ok verified →
      locked.index = index → locked.amount ≤ x →
        ∃ channel', channel.applyLocked crypto locked = .ok channel'
  quotable : ∀ locked channel', channel.applyLocked crypto locked = .ok channel' →
    0 < locked.amount → channel.Unspent locked.index ∧
      ∃ x, channel.canCommit x = .ok locked.index

/-- While anything is uncommitted, the last index used on chain is not above the receipt's, and
none is the receipt's next one. -/
def Channel.ChainBehind (self : Channel) : Prop :=
  ∀ uncommitted, self.uncommitted = .ok uncommitted → 0 < uncommitted →
    ∀ receipt ∈ self.receipt, ∀ retainer ∈ self.retainer,
      (∀ used ∈ retainer.useds.getLast?, used.index ≤ receipt.maxIndex) ∧
        receipt.maxIndex + 1 ∉ retainer.useds.map Used.index

/-- No index is the greatest word. -/
def ChannelEvent.Indexed : ChannelEvent → Prop
  | .squash new => new.index ≠ Word.maxValue
  | .locked cheque => cheque.index ≠ Word.maxValue
  | _ => True

/-- The receipt is in order. -/
def Channel.Ordered (self : Channel) : Prop := ∀ receipt ∈ self.receipt, receipt.Ordered

section Quotes

variable {crypto : Crypto} {channel channel' : Channel} {receipt : Receipt} {retainer : Retainer}
  {uncommitted index x : UInt64}

/-! ### What is quoted and what is taken -/

lemma Channel.canCommit_eq_ok : channel.canCommit x = .ok index ↔
    ∃ uncommitted, channel.uncommitted = .ok uncommitted ∧ x < uncommitted ∧
      channel.nextIndex = .ok index := by
  simp only [canCommit, Result.bind_eq_ok]
  refine exists_congr fun uncommitted => and_congr_right fun _ => ?_
  split_ifs with hlt
  · exact (and_iff_right hlt).symm
  · exact iff_of_false id fun h => hlt h.1

lemma Channel.exists_of_uncommitted (h : channel.uncommitted = .ok uncommitted) :
    (∃ receipt, channel.receipt = some receipt) ∧
      ∃ retainer, channel.retainer = some retainer := by
  have hsome := h
  simp only [Channel.uncommitted, Result.bind_eq_ok, getReceipt_eq_ok] at hsome
  obtain ⟨_, _, _, _, receipt, hreceipt, -⟩ := hsome
  obtain ⟨-, -, retainer, hretainer, -⟩ := (uncommitted_eq_ok hreceipt).mp h
  exact ⟨⟨receipt, hreceipt⟩, retainer, hretainer⟩

/-- Where anything can be committed, an index is quoted. -/
lemma Channel.nextIndex_of_uncommitted (huncommitted : channel.uncommitted = .ok uncommitted)
    (hreceipt : channel.receipt = some receipt) (hretainer : channel.retainer = some retainer) :
    channel.nextIndex = .ok
      (max ((retainer.useds.getLast?.map Used.index).getD 0) receipt.proposeIndex) := by
  obtain ⟨hactive, -, -⟩ := (uncommitted_eq_ok hreceipt).mp huncommitted
  simp [nextIndex, assertActive, hactive, getRetainer, hretainer, getReceipt, hreceipt, bind,
    Except.bind, pure, Except.pure]

/-- A cheque is taken when it verifies, is covered and has the next index. -/
lemma Channel.applyLocked_isOk_iff {locked : Locked .unverified} {verified : Locked .verified}
    (hverify : locked.tryVerify crypto channel.key channel.tag = .ok verified)
    (huncommitted : channel.uncommitted = .ok uncommitted)
    (hreceipt : channel.receipt = some receipt) :
    (∃ channel', channel.applyLocked crypto locked = .ok channel') ↔
      locked.amount ≤ uncommitted ∧ locked.index = receipt.proposeIndex := by
  obtain ⟨-, hverified⟩ := Locked.tryVerify_eq_ok.mp hverify
  have hamount : verified.amount = locked.amount := by rw [hverified]; rfl
  have hindex : verified.index = locked.index := by rw [hverified]; rfl
  constructor
  · rintro ⟨channel', happly⟩
    obtain ⟨receipt', _, verified', uncommitted', hreceipt', hverify', huncommitted', hle, htaken,
      -⟩ := applyLocked_cases happly
    obtain rfl := Except.ok.inj (hverify.symm.trans hverify')
    obtain rfl := Except.ok.inj (huncommitted.symm.trans huncommitted')
    obtain rfl := Option.some.inj (hreceipt.symm.trans hreceipt')
    exact ⟨hamount ▸ hle, hindex ▸ (Receipt.applyLocked_eq_ok.mp htaken).1⟩
  · rintro ⟨hle, hnext⟩
    have htaken := Receipt.applyLocked_eq_ok.mpr ⟨hindex.trans hnext, rfl⟩
    refine ⟨{ channel with
      receipt := some { receipt with cheques := receipt.cheques ++ [.locked verified] } }, ?_⟩
    simp only [applyLocked, Result.bind_eq_ok, Result.mapError_eq_ok]
    refine ⟨verified, hverify, uncommitted, huncommitted, ?_⟩
    rw [if_neg (by rw [hamount]; exact not_lt.mpr hle)]
    simp only [Result.bind_eq_ok, Result.mapError_eq_ok, getReceipt_eq_ok, Result.pure_eq_ok]
    exact ⟨receipt, hreceipt, _, htaken, rfl⟩

/-! ### A receipt in order -/

/-- What each change of a receipt keeps holds of the receipt after every event. -/
lemma Channel.forall_receipt_of_apply {P : Receipt → Prop} {event : ChannelEvent}
    (h : ∀ receipt ∈ channel.receipt, P receipt)
    (hsquash : ∀ squash, event = .squash squash → P (.new (squash.withState .verified)) ∧
      ∀ old new, P old → old.applySquash (squash.withState .verified) = .ok new → P new)
    (hlocked : ∀ locked, event = .locked locked → ∀ old new, P old →
      old.applyLocked (locked.withState .verified) = .ok new → P new)
    (hunlock : ∀ old secret, P old →
      P { old with cheques := old.cheques.map (Receipt.unlockCheque crypto secret) })
    (happly : channel.apply crypto event = .ok channel') :
    ∀ receipt ∈ channel'.receipt, P receipt := by
  have hsecret : ∀ (channel : Channel) (secret : Secret) (channel' : Channel),
      (∀ receipt ∈ channel.receipt, P receipt) →
        channel.applySecret crypto secret = .ok channel' →
          ∀ receipt ∈ channel'.receipt, P receipt := by
    intro channel secret channel' h happly
    obtain ⟨receipt, hreceipt, rfl⟩ := Channel.applySecret_eq_ok happly
    intro receipt' hreceipt'
    obtain rfl := Option.some.inj hreceipt'
    exact hunlock receipt secret (h receipt hreceipt)
  cases event with
  | squash squash =>
    obtain ⟨verified, receipt, hverify, rfl, hcases⟩ := Channel.applySquash_cases happly
    obtain ⟨-, rfl⟩ := Squash.tryVerify_eq_ok.mp hverify
    intro receipt' hreceipt'
    obtain rfl := Option.some.inj hreceipt'
    rcases hcases with ⟨-, rfl⟩ | ⟨old, hold, htaken⟩
    · exact (hsquash squash rfl).1
    · exact (hsquash squash rfl).2 old receipt (h old hold) htaken
  | locked locked =>
    obtain ⟨receipt, receipt', verified, -, hreceipt, hverify, -, -, htaken, rfl⟩ :=
      Channel.applyLocked_cases happly
    obtain ⟨-, rfl⟩ := Locked.tryVerify_eq_ok.mp hverify
    intro receipt'' hreceipt''
    obtain rfl := Option.some.inj hreceipt''
    exact hlocked locked rfl receipt receipt' (h receipt hreceipt) htaken
  | secret secret => exact hsecret channel secret channel' h happly
  | secrets secrets =>
    exact Result.foldlM_invariant (P := fun channel => ∀ receipt ∈ channel.receipt, P receipt)
      hsecret h happly
  | retainers candidates =>
    obtain rfl := Except.ok.inj happly
    exact h

/-- One step keeps the receipt in order. -/
lemma Channel.Ordered.step {event : ChannelEvent} (h : channel.Ordered) (hindexed : event.Indexed)
    (happly : channel.apply crypto event = .ok channel') : channel'.Ordered := by
  refine Channel.forall_receipt_of_apply h ?_ ?_ (fun _ secret h => h.unlock crypto secret) happly
  · rintro squash rfl
    have hmax : (squash.withState .verified).index ≠ Word.maxValue := hindexed
    exact ⟨.new hmax, fun _ _ h => h.applySquash hmax⟩
  · rintro locked rfl
    have hmax : (locked.withState .verified).index ≠ Word.maxValue := hindexed
    exact fun _ _ h => h.applyLocked hmax

/-! ### When quotes are honoured -/

/-- Behind the receipt, the index that is quoted is its next one. -/
lemma Channel.ChainBehind.nextIndex (h : channel.ChainBehind) (hordered : receipt.Ordered)
    (huncommitted : channel.uncommitted = .ok uncommitted) (hpos : 0 < uncommitted)
    (hreceipt : channel.receipt = some receipt) :
    channel.nextIndex = .ok receipt.proposeIndex ∧ channel.Unspent receipt.proposeIndex := by
  obtain ⟨-, retainer, hretainer⟩ := exists_of_uncommitted huncommitted
  obtain ⟨hlast, hunspent⟩ := h uncommitted huncommitted hpos receipt hreceipt retainer hretainer
  constructor
  · rw [nextIndex_of_uncommitted huncommitted hreceipt hretainer, max_eq_right]
    cases hused : retainer.useds.getLast? with
    | none => exact UInt64.zero_le
    | some used => exact (hlast used hused).trans hordered.lt_proposeIndex.le
  · intro retainer' hretainer'
    obtain rfl := Option.some.inj (hretainer.symm.trans hretainer')
    exact hunspent

lemma Channel.Ordered.honoured_of_behind (h : channel.Ordered) (hbehind : channel.ChainBehind) :
    QuotesHonoured crypto channel := by
  -- what is quoted is the receipt's next index
  have hquote : ∀ {x index}, channel.canCommit x = .ok index → ∃ uncommitted receipt,
      channel.uncommitted = .ok uncommitted ∧ x < uncommitted ∧ channel.receipt = some receipt ∧
        index = receipt.proposeIndex ∧ channel.Unspent index := by
    intro x index hcommit
    obtain ⟨uncommitted, huncommitted, hlt, hnext⟩ := canCommit_eq_ok.mp hcommit
    obtain ⟨⟨receipt, hreceipt⟩, -⟩ := exists_of_uncommitted huncommitted
    obtain ⟨hnext', hunspent⟩ := hbehind.nextIndex (h receipt hreceipt) huncommitted
      (UInt64.zero_le.trans_lt hlt) hreceipt
    obtain rfl := Except.ok.inj (hnext.symm.trans hnext')
    exact ⟨uncommitted, receipt, huncommitted, hlt, hreceipt, rfl, hunspent⟩
  refine ⟨fun x index hcommit => ?_, fun x index hcommit locked verified hverify hindex hle => ?_,
    fun locked channel' happly hpos => ?_⟩
  · obtain ⟨uncommitted, receipt, -, -, hreceipt, rfl, hunspent⟩ := hquote hcommit
    refine ⟨hunspent, fun receipt' hreceipt' => ?_⟩
    obtain rfl := Option.some.inj (hreceipt.symm.trans hreceipt')
    have habove := fun i => (h receipt hreceipt).lt_of_mem (i := i)
    refine ⟨?_, fun hmem => lt_irrefl _ (habove _ (List.mem_cons_of_mem _ hmem))⟩
    by_contra hsquashed
    rw [Bool.not_eq_false] at hsquashed
    exact absurd (SquashBody.le_of_isIndexSquashed hsquashed)
      (not_le.mpr (habove _ List.mem_cons_self))
  · obtain ⟨uncommitted, receipt, huncommitted, hlt, hreceipt, rfl, -⟩ := hquote hcommit
    exact (applyLocked_isOk_iff hverify huncommitted hreceipt).mpr ⟨hle.trans hlt.le, hindex⟩
  · obtain ⟨receipt, _, verified, uncommitted, hreceipt, hverify, huncommitted, -⟩ :=
      applyLocked_cases happly
    obtain ⟨hle, hindex⟩ :=
      (applyLocked_isOk_iff hverify huncommitted hreceipt).mp ⟨channel', happly⟩
    have hfunds := hpos.trans_le hle
    obtain ⟨hnext, hunspent⟩ := hbehind.nextIndex (h receipt hreceipt) huncommitted hfunds hreceipt
    rw [hindex]
    exact ⟨hunspent, 0, canCommit_eq_ok.mpr ⟨uncommitted, huncommitted, hfunds, hnext⟩⟩

lemma Channel.Ordered.behind_of_honoured (h : channel.Ordered)
    (hhonoured : QuotesHonoured crypto channel) : channel.ChainBehind := by
  intro uncommitted huncommitted hpos receipt hreceipt retainer hretainer
  have hnext := nextIndex_of_uncommitted huncommitted hreceipt hretainer
  have hunspent := (hhonoured.unused 0 _ (canCommit_eq_ok.mpr
    ⟨uncommitted, huncommitted, hpos, hnext⟩)).1 retainer hretainer
  have hlast : ∀ used ∈ retainer.useds.getLast?, used.index < receipt.proposeIndex := by
    intro used hused
    by_contra hle
    -- the last index would be quoted
    rw [hused, Option.map_some, Option.getD_some, max_eq_left (not_lt.mp hle)] at hunspent
    exact hunspent (List.mem_map_of_mem (List.mem_of_getLast? hused))
  refine ⟨fun used hused => ?_, ?_⟩
  · exact Word.le_of_lt_succ ((h receipt hreceipt).below _ receipt.maxIndex_mem) (hlast used hused)
  · rwa [max_eq_right] at hunspent
    cases hused : retainer.useds.getLast? with
    | none => exact UInt64.zero_le
    | some used => exact (hlast used hused).le

/-- **Quotes are honoured.**  In every state of a run in which no index is the greatest word,
quotes and cheques agree just when the chain is behind the receipt. -/
theorem quotesHonoured_iff {events : List ChannelEvent} (hnone : channel.receipt = none)
    (hrun : Trace (fun channel event channel' =>
      event.Indexed ∧ channel.apply crypto event = .ok channel') channel events channel') :
    QuotesHonoured crypto channel' ↔ channel'.ChainBehind := by
  have hordered : channel'.Ordered := by
    refine Trace.invariant (P := fun _ channel => channel.Ordered) ?_ ?_ hrun
    · simp [Channel.Ordered, hnone]
    · rintro _ channel event channel' - h ⟨hindexed, happly⟩
      exact h.step hindexed happly
  exact ⟨hordered.behind_of_honoured, hordered.honoured_of_behind⟩

end Quotes

namespace Sample

/-- A retainer that has used the index of the cheque. -/
def spentRetainer : Retainer := ⟨10_000, 1, [⟨1, 1⟩], by decide⟩

/-- The null squash, and a retainer that is ahead of it. -/
def ahead : List ChannelEvent := [.squash (squashTo 0 0), .retainers [spentRetainer]]

end Sample

/-- After the null squash and a cheque, with no use on chain. -/
theorem quotesHonoured_of_cheque : QuotesHonoured .noCrypto
    (Sample.opened (Sample.squashTo 0 0) [.locked ((Sample.chequeAt 1).withState .verified)]) := by
  have hsquash : (ChannelEvent.squash (Sample.squashTo 0 0)).Indexed := by
    show (0 : UInt64) ≠ Word.maxValue
    decide
  have hcheque : (ChannelEvent.locked (Sample.chequeAt 1)).Indexed := by
    show (1 : UInt64) ≠ Word.maxValue
    decide
  refine (@quotesHonoured_iff .noCrypto Sample.unopened _ _ rfl
    (.snoc (.snoc .nil ⟨hsquash, rfl⟩) ⟨hcheque, rfl⟩)).mpr ?_
  intro uncommitted _ _ receipt _ retainer hretainer
  obtain rfl := Option.some.inj hretainer
  exact ⟨by simp [Sample.retainer], by simp [Sample.retainer]⟩

/-- Where the retainer has used the next index, this is quoted, and a cheque for it is taken. -/
theorem not_quotesHonoured_of_ahead :
    ∃ channel', Channel.Run .noCrypto (Channel.new ⟨BytesN.fill 32 0⟩ ⟨[]⟩) Sample.ahead channel' ∧
      channel'.canCommit 1 = .ok 1 ∧ ¬channel'.Unspent 1 ∧
      (∃ channel'', channel'.applyLocked .noCrypto (Sample.chequeAt 1) = .ok channel'') ∧
      ¬QuotesHonoured .noCrypto channel' := by
  refine ⟨_, .snoc (.snoc .nil rfl) rfl, rfl, ?_, ⟨_, rfl⟩, fun h => ?_⟩
  · intro h
    exact absurd (h Sample.spentRetainer rfl) (by decide)
  · exact absurd ((h.unused 1 1 rfl).1 Sample.spentRetainer rfl) (by decide)

end Konduit.Server
