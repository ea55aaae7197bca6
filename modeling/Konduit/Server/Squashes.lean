import Konduit.Lib.Trace
import Konduit.Server.Commitments

/-!
# Squashes only move forward

What the server takes from a consumer over the life of a receipt: squashes, cheques, and the
secrets of these.  A squash is let in by its amount alone, so a later one may squash less than
the one before, and an index that was squashed is then proposed again.  Where each squash is a
bump of the one before (`Bump`), squashes only move forward, and no index is used twice
(`onlyForward`).
-/

open Lib

namespace Konduit.Server

open Data Tmp

/-! ### Runs of a channel -/

/-- What happens to a channel. -/
inductive ChannelEvent where
  | squash (squash : Squash .unverified)
  | locked (locked : Locked .unverified)
  | secret (secret : Secret)
  | secrets (secrets : List Secret)
  | retainers (candidates : List Retainer)

/-- What an event makes of a channel. -/
def Channel.apply (crypto : Crypto) (self : Channel) :
    ChannelEvent → Except ChannelError Channel
  | .squash squash => self.applySquash crypto squash
  | .locked locked => self.applyLocked crypto locked
  | .secret secret => self.applySecret crypto secret
  | .secrets secrets => self.applySecrets crypto secrets
  | .retainers candidates => self.applyRetainer candidates

/-- The runs of a channel, each with the list of the events that are accepted. -/
abbrev Channel.Run (crypto : Crypto) : Channel → List ChannelEvent → Channel → Prop :=
  Trace fun channel event channel' => channel.apply crypto event = .ok channel'

/-- The squashes among events. -/
def squashes (events : List ChannelEvent) : List (Squash .unverified) :=
  events.filterMap fun
    | .squash squash => some squash
    | _ => none

/-- The locked cheques among events. -/
def lockeds (events : List ChannelEvent) : List (Locked .unverified) :=
  events.filterMap fun
    | .locked locked => some locked
    | _ => none

section Events

variable (events : List ChannelEvent)

@[simp] lemma squashes_squash (squash : Squash .unverified) :
    squashes (events ++ [.squash squash]) = squashes events ++ [squash] :=
  List.filterMap_append

@[simp] lemma squashes_locked (locked : Locked .unverified) :
    squashes (events ++ [.locked locked]) = squashes events := by
  simp [squashes]

@[simp] lemma lockeds_squash (squash : Squash .unverified) :
    lockeds (events ++ [.squash squash]) = lockeds events := by
  simp [lockeds]

@[simp] lemma lockeds_locked (locked : Locked .unverified) :
    lockeds (events ++ [.locked locked]) = lockeds events ++ [locked] :=
  List.filterMap_append

end Events

/-! ### What forward means -/

/-- A squash that is not earlier than another. -/
structure NotEarlier (old new : SquashBody) : Prop where
  amount : old.amount ≤ new.amount
  index : old.index ≤ new.index
  squashed : ∀ i, old.isIndexSquashed i = true → new.isIndexSquashed i = true

/-- No squash squashes the index, and no cheque has it. -/
structure Unused (events : List ChannelEvent) (index : UInt64) : Prop where
  squashes : ∀ squash ∈ squashes events, squash.isIndexSquashed index = false
  lockeds : ∀ locked ∈ lockeds events, locked.index ≠ index

/-- Each cheque that was accepted had an index that was unused then. -/
def FreshCheques (events : List ChannelEvent) : Prop :=
  ∀ before locked after, events = before ++ .locked locked :: after → Unused before locked.index

/-- Squashes only move forward, and an index that is accepted, proposed or quoted is unused. -/
structure OnlyForward (events : List ChannelEvent) (channel : Channel) : Prop where
  squashes : (squashes events).Pairwise fun old new => NotEarlier old.body new.body
  accepted : FreshCheques events
  proposed : ∀ receipt ∈ channel.receipt, Unused events receipt.proposeIndex
  quoted : ∀ index, channel.nextIndex = .ok index → Unused events index

/-- The body squashes the index of the current squash, and excludes nothing that is squashed;
and the amount that it has to reach is a word. -/
structure Bump (receipt : Receipt) (body : SquashBody) : Prop where
  index : body.isIndexSquashed receipt.squash.index = true
  exclude : ∀ i ∈ body.exclude.items, receipt.squash.isIndexSquashed i = true →
    body.isIndexSquashed i = true
  fits : receipt.squash.amount.toNat +
    ((receipt.cheques.filter fun c => body.isIndexSquashed c.index).map fun c =>
      c.amount.toNat).sum < 2 ^ 64

/-- A squash is a bump of the one before, and no index is the greatest word. -/
def ChannelEvent.Bumps (channel : Channel) : ChannelEvent → Prop
  | .squash new => new.index ≠ Word.maxValue ∧ ∀ receipt ∈ channel.receipt, Bump receipt new.body
  | .locked cheque => cheque.index ≠ Word.maxValue
  | _ => True

/-! ### One squash after another -/

section Bump

variable {body body' body'' : SquashBody} {receipt receipt' : Receipt} {squash : Squash .verified}

lemma NotEarlier.refl (body : SquashBody) : NotEarlier body body :=
  ⟨le_rfl, le_rfl, fun _ => id⟩

lemma NotEarlier.trans (h : NotEarlier body body') (h' : NotEarlier body' body'') :
    NotEarlier body body'' :=
  ⟨h.amount.trans h'.amount, h.index.trans h'.index, fun i hi => h'.squashed i (h.squashed i hi)⟩

/-- Unless the sum of the amounts wraps, a squash that is let in is not earlier just when it is
a bump: the amounts are compared, the indexes are not. -/
lemma notEarlier_iff_bump (happly : receipt.applySquash squash = .ok receipt')
    (hfits : receipt.squash.amount.toNat +
      ((receipt.cheques.filter fun c => squash.body.isIndexSquashed c.index).map fun c =>
        c.amount.toNat).sum < 2 ^ 64) :
    NotEarlier receipt.squash.body squash.body ↔ Bump receipt squash.body := by
  have hamount := (Receipt.applySquash_eq_ok.mp happly).1
  rw [not_lt, UInt64.le_iff_toNat_le, UInt64.toNat_add, Word.toNat_sum_map] at hamount
  simp only [Squash.isIndexSquashed] at hamount
  rw [Nat.add_mod_mod, Nat.mod_eq_of_lt hfits] at hamount
  constructor
  · intro h
    obtain ⟨hindex, hexclude⟩ := SquashBody.isIndexSquashed_mono_iff.mp h.squashed
    exact ⟨hindex, hexclude, hfits⟩
  · intro h
    refine ⟨?_, SquashBody.le_of_isIndexSquashed h.index,
      SquashBody.isIndexSquashed_mono_iff.mpr ⟨h.index, h.exclude⟩⟩
    rw [UInt64.le_iff_toNat_le]
    exact (Nat.le_add_right _ _).trans hamount

end Bump

/-! ### What a run keeps -/

section Run

variable {crypto : Crypto} {channel channel' : Channel} {events : List ChannelEvent}
  {receipt : Receipt}

/-- What a receipt knows of the events: its squash is not earlier than any, and each cheque is
squashed or held. -/
structure Tracked (events : List ChannelEvent) (receipt : Receipt) : Prop where
  forward : (squashes events).Pairwise fun old new => NotEarlier old.body new.body
  latest : ∀ squash ∈ squashes events, NotEarlier squash.body receipt.squash.body
  sorted : (receipt.cheques.map Cheque.index).Pairwise (· < ·)
  held : ∀ locked ∈ lockeds events, locked.index ≤ receipt.squash.index ∨
    locked.index ∈ receipt.cheques.map Cheque.index
  below : ∀ i ∈ receipt.indexes, i ≠ Word.maxValue

lemma Tracked.unused (h : Tracked events receipt) {index : UInt64}
    (hindex : receipt.maxIndex < index) : Unused events index where
  squashes squash hsquash := by
    by_contra hsquashed
    rw [Bool.not_eq_false] at hsquashed
    have hle : index ≤ receipt.squash.index :=
      SquashBody.le_of_isIndexSquashed ((h.latest squash hsquash).squashed index hsquashed)
    exact absurd (hle.trans (Receipt.le_maxIndex h.sorted List.mem_cons_self)) (not_le.mpr hindex)
  lockeds locked hlocked := by
    rintro rfl
    have hle : locked.index ≤ receipt.maxIndex := by
      rcases h.held locked hlocked with hle | hmem
      · exact hle.trans (Receipt.le_maxIndex h.sorted List.mem_cons_self)
      · exact Receipt.le_maxIndex h.sorted (List.mem_cons_of_mem _ hmem)
    exact absurd hle (not_le.mpr hindex)

lemma Tracked.ordered (h : Tracked events receipt) : receipt.Ordered := ⟨h.sorted, h.below⟩

lemma Tracked.lt_proposeIndex (h : Tracked events receipt) :
    receipt.maxIndex < receipt.proposeIndex :=
  h.ordered.lt_proposeIndex

/-- A new receipt knows of its squash. -/
lemma Tracked.new {squash : Squash .unverified} (hsquashes : squashes events = [])
    (hlockeds : lockeds events = []) (hmax : squash.index ≠ Word.maxValue) :
    Tracked (events ++ [.squash squash]) (.new (squash.withState .verified)) := by
  have hnew : squashes (events ++ [.squash squash]) = [squash] := by
    rw [squashes_squash, hsquashes, List.nil_append]
  have hordered : (Receipt.new (squash.withState .verified)).Ordered := .new hmax
  refine ⟨?_, ?_, hordered.sorted, ?_, hordered.below⟩
  · simp [hnew]
  · intro old hold
    rw [hnew, List.mem_singleton] at hold
    exact hold ▸ NotEarlier.refl _
  · intro locked hlocked
    simp [lockeds_squash, hlockeds] at hlocked

/-- A bump that is let in is not earlier than what came before it. -/
lemma Tracked.applySquash {squash : Squash .unverified} {receipt' : Receipt}
    (h : Tracked events receipt) (hbump : Bump receipt squash.body)
    (hmax : squash.index ≠ Word.maxValue)
    (happly : receipt.applySquash (squash.withState .verified) = .ok receipt') :
    Tracked (events ++ [.squash squash]) receipt' := by
  have hnot : NotEarlier receipt.squash.body squash.body :=
    (notEarlier_iff_bump happly hbump.fits).mpr hbump
  have hordered : receipt'.Ordered := h.ordered.applySquash hmax happly
  obtain ⟨-, rfl⟩ := Receipt.applySquash_eq_ok.mp happly
  have hlatest : ∀ old ∈ squashes events, NotEarlier old.body squash.body := fun old hold =>
    (h.latest old hold).trans hnot
  refine ⟨?_, ?_, hordered.sorted, ?_, hordered.below⟩
  · rw [squashes_squash, List.pairwise_append]
    exact ⟨h.forward, List.pairwise_singleton _ _, by simpa using hlatest⟩
  · rw [squashes_squash, List.forall_mem_append, List.forall_mem_singleton]
    exact ⟨hlatest, NotEarlier.refl _⟩
  · -- a cheque that is dropped is squashed
    intro locked hlocked
    rw [lockeds_squash] at hlocked
    rcases h.held locked hlocked with hle | hmem
    · exact Or.inl (hle.trans hnot.index)
    · obtain ⟨c, hc, hindex⟩ := List.mem_map.mp hmem
      by_cases hsquashed : (squash.withState .verified).isIndexSquashed c.index = true
      · exact Or.inl (hindex ▸ SquashBody.le_of_isIndexSquashed hsquashed)
      · exact Or.inr (List.mem_map.mpr ⟨c, List.mem_filter.mpr ⟨hc, by simpa using hsquashed⟩,
          hindex⟩)

/-- A cheque that is taken has an unused index. -/
lemma Tracked.applyLocked {locked : Locked .unverified} {verified : Locked .verified}
    {receipt' : Receipt} (h : Tracked events receipt) (hindex : verified.index = locked.index)
    (hmax : locked.index ≠ Word.maxValue) (happly : receipt.applyLocked verified = .ok receipt') :
    Unused events locked.index ∧ Tracked (events ++ [.locked locked]) receipt' := by
  have hordered : receipt'.Ordered := h.ordered.applyLocked (hindex ▸ hmax) happly
  obtain ⟨hnext, rfl⟩ := Receipt.applyLocked_eq_ok.mp happly
  have hlt : receipt.maxIndex < locked.index := by
    rw [← hindex, hnext]
    exact h.lt_proposeIndex
  have hmap : (receipt.cheques ++ [Cheque.locked verified]).map Cheque.index =
      receipt.cheques.map Cheque.index ++ [locked.index] := by
    rw [List.map_append, List.map_singleton, ← hindex]
    rfl
  refine ⟨h.unused hlt, ?_, ?_, hordered.sorted, ?_, hordered.below⟩
  · rw [squashes_locked]
    exact h.forward
  · rw [squashes_locked]
    exact h.latest
  · rw [lockeds_locked, List.forall_mem_append, List.forall_mem_singleton, hmap]
    refine ⟨fun old hold => ?_, Or.inr (by simp)⟩
    exact (h.held old hold).imp_right (List.mem_append_left _)

/-- Secrets unlock cheques, and leave the indexes. -/
lemma Tracked.applySecret (h : Tracked events receipt) (secret : Secret) :
    Tracked events
      { receipt with cheques := receipt.cheques.map (Receipt.unlockCheque crypto secret) } := by
  have hmap : (receipt.cheques.map (Receipt.unlockCheque crypto secret)).map Cheque.index =
      receipt.cheques.map Cheque.index := by
    rw [List.map_map]
    exact List.map_congr_left fun c _ => Receipt.index_unlockCheque crypto secret c
  have hordered := h.ordered.unlock crypto secret
  refine ⟨h.forward, h.latest, hordered.sorted, ?_, hordered.below⟩
  rw [hmap]
  exact h.held

/-- What a channel knows of the events: without a receipt, that there were none. -/
structure Tracks (events : List ChannelEvent) (channel : Channel) : Prop where
  empty : channel.receipt = none → squashes events = [] ∧ lockeds events = []
  tracked : ∀ receipt ∈ channel.receipt, Tracked events receipt

lemma Tracks.of_some {r : Receipt} (h : Tracked events r) :
    Tracks events { channel with receipt := some r } :=
  ⟨by simp, by simpa using h⟩

lemma Tracks.applySecret (h : Tracks events channel) {secret : Secret}
    (happly : channel.applySecret crypto secret = .ok channel') : Tracks events channel' := by
  obtain ⟨receipt, hreceipt, rfl⟩ := Channel.applySecret_eq_ok happly
  exact .of_some ((h.tracked receipt hreceipt).applySecret secret)

lemma Tracks.applySecrets (h : Tracks events channel) {secrets : List Secret}
    (happly : channel.applySecrets crypto secrets = .ok channel') : Tracks events channel' := by
  rw [Channel.applySecrets] at happly
  exact Result.foldlM_invariant (fun _ _ _ h hstep => h.applySecret hstep) h happly

lemma Tracks.applyRetainer (h : Tracks events channel) {candidates : List Retainer}
    (happly : channel.applyRetainer candidates = .ok channel') : Tracks events channel' := by
  obtain rfl := Except.ok.inj happly
  exact ⟨h.empty, h.tracked⟩

/-- What happens beside squashes and cheques is not looked at. -/
lemma Tracks.snoc {event : ChannelEvent} (h : Tracks events channel)
    (hsquashes : squashes [event] = []) (hlockeds : lockeds [event] = []) :
    Tracks (events ++ [event]) channel := by
  have hs : squashes (events ++ [event]) = squashes events := by
    rw [squashes, List.filterMap_append]
    exact (congrArg _ hsquashes).trans (List.append_nil _)
  have hl : lockeds (events ++ [event]) = lockeds events := by
    rw [lockeds, List.filterMap_append]
    exact (congrArg _ hlockeds).trans (List.append_nil _)
  refine ⟨fun hnone => by rw [hs, hl]; exact h.empty hnone, fun receipt hreceipt => ?_⟩
  obtain ⟨forward, latest, sorted, held, below⟩ := h.tracked receipt hreceipt
  exact ⟨hs ▸ forward, hs ▸ latest, sorted, hl ▸ held, below⟩

/-- One step: a cheque that is accepted has an unused index. -/
lemma Tracks.step {event : ChannelEvent} (h : Tracks events channel) (hbumps : event.Bumps channel)
    (happly : channel.apply crypto event = .ok channel') :
    Tracks (events ++ [event]) channel' ∧
      ∀ locked, event = .locked locked → Unused events locked.index := by
  cases event with
  | squash squash =>
    obtain ⟨hmax, hbump⟩ := hbumps
    obtain ⟨verified, receipt, hverify, rfl, hcases⟩ := Channel.applySquash_cases happly
    obtain ⟨-, rfl⟩ := Squash.tryVerify_eq_ok.mp hverify
    refine ⟨.of_some ?_, by simp⟩
    rcases hcases with ⟨hnone, rfl⟩ | ⟨old, hold, hreceipt⟩
    · obtain ⟨hsquashes, hlockeds⟩ := h.empty hnone
      exact .new hsquashes hlockeds hmax
    · exact (h.tracked old hold).applySquash (hbump old hold) hmax hreceipt
  | locked locked =>
    obtain ⟨receipt, receipt', verified, -, hreceipt, hverify, -, -, htaken, rfl⟩ :=
      Channel.applyLocked_cases happly
    have hindex : verified.index = locked.index := by
      rw [(Locked.tryVerify_eq_ok.mp hverify).2]
      rfl
    obtain ⟨hunused, htracked⟩ := (h.tracked receipt hreceipt).applyLocked hindex hbumps htaken
    refine ⟨.of_some htracked, fun locked' heq => ?_⟩
    obtain rfl := ChannelEvent.locked.inj heq
    exact hunused
  | secret secret => exact ⟨(h.applySecret happly).snoc rfl rfl, by simp⟩
  | secrets secrets => exact ⟨(h.applySecrets happly).snoc rfl rfl, by simp⟩
  | retainers candidates => exact ⟨(h.applyRetainer happly).snoc rfl rfl, by simp⟩

lemma FreshCheques.snoc {event : ChannelEvent} (h : FreshCheques events)
    (hnew : ∀ locked, event = .locked locked → Unused events locked.index) :
    FreshCheques (events ++ [event]) := by
  intro before locked after heq
  rcases List.eq_nil_or_concat after with rfl | ⟨after, last, rfl⟩
  · obtain ⟨rfl, hevent⟩ := List.append_inj' heq rfl
    exact hnew locked (List.singleton_inj.mp hevent)
  · rw [List.concat_eq_append, ← List.cons_append, ← List.append_assoc] at heq
    exact h before locked after (List.append_inj' heq rfl).1

/-- An index that is quoted is the proposed one, or a greater one that was used on chain. -/
lemma proposeIndex_le_of_nextIndex {index : UInt64} (h : channel.nextIndex = .ok index) :
    ∃ receipt ∈ channel.receipt, receipt.proposeIndex ≤ index := by
  simp only [Channel.nextIndex, Result.bind_eq_ok, Channel.getReceipt_eq_ok,
    Result.pure_eq_ok] at h
  obtain ⟨_, _, _, _, receipt, hreceipt, rfl⟩ := h
  exact ⟨receipt, hreceipt, le_max_right _ _⟩

/-- **Only forward.**  In every run of a channel from before its receipt in which every squash
is a bump, squashes only move forward, and no index is used twice. -/
theorem onlyForward (hnone : channel.receipt = none)
    (hrun : Trace (fun channel event channel' =>
      event.Bumps channel ∧ channel.apply crypto event = .ok channel') channel events channel') :
    OnlyForward events channel' := by
  have htracks : Tracks events channel' ∧ FreshCheques events := by
    refine Trace.invariant (P := fun events channel => Tracks events channel ∧ FreshCheques events)
      ⟨⟨fun _ => ⟨rfl, rfl⟩, by simp [hnone]⟩, fun before _ _ h => by simp at h⟩ ?_ hrun
    rintro events channel event channel' - ⟨htracks, hfresh⟩ ⟨hbumps, happly⟩
    obtain ⟨htracks', hunused⟩ := htracks.step hbumps happly
    exact ⟨htracks', hfresh.snoc hunused⟩
  obtain ⟨htracks, hfresh⟩ := htracks
  refine ⟨?_, hfresh, ?_, ?_⟩
  · cases hreceipt : channel'.receipt with
    | none => simp [(htracks.empty hreceipt).1]
    | some receipt => exact (htracks.tracked receipt hreceipt).forward
  · intro receipt hreceipt
    have htracked := htracks.tracked receipt hreceipt
    exact htracked.unused htracked.lt_proposeIndex
  · intro index hindex
    obtain ⟨receipt, hreceipt, hle⟩ := proposeIndex_le_of_nextIndex hindex
    have htracked := htracks.tracked receipt hreceipt
    exact htracked.unused (htracked.lt_proposeIndex.trans_le hle)

end Run

namespace Sample

/-- A squash of every index up to this one. -/
def squashTo (amount index : UInt64) : Squash .unverified :=
  ⟨⟨amount, index, .empty⟩, ⟨BytesN.fill 64 0⟩⟩

/-- The channel before its receipt. -/
def unopened : Channel := { channel with receipt := none }

/-- A channel with this squash and these cheques. -/
def opened (squash : Squash .unverified) (cheques : List (Cheque .verified)) : Channel :=
  { channel with receipt := some ⟨squash.withState .verified, cheques⟩ }

/-- The cheque, once it verifies. -/
def held : Cheque .verified := .locked (cheque.withState .verified)

/-- The null squash, a cheque, and the squash of this cheque. -/
def paid : List ChannelEvent :=
  [.squash (squashTo 0 0), .locked cheque, .squash (squashTo 1 1)]

/-- A squash up to five, one of nothing, and a cheque. -/
def taken : List ChannelEvent :=
  [.squash (squashTo 0 5), .squash (squashTo 0 0), .locked cheque]

end Sample

theorem onlyForward_of_paid : OnlyForward Sample.paid (Sample.opened (Sample.squashTo 1 1) []) := by
  have hnull : (ChannelEvent.squash (Sample.squashTo 0 0)).Bumps Sample.unopened :=
    ⟨by decide, by simp [Sample.unopened]⟩
  have hcheque : (ChannelEvent.locked Sample.cheque).Bumps
      (Sample.opened (Sample.squashTo 0 0) []) := by
    show Sample.cheque.index ≠ Word.maxValue
    decide
  have hsquash : (ChannelEvent.squash (Sample.squashTo 1 1)).Bumps
      (Sample.opened (Sample.squashTo 0 0) [Sample.held]) := by
    refine ⟨by decide, fun receipt hreceipt => ?_⟩
    obtain rfl := Option.some.inj hreceipt
    exact ⟨by decide, by simp [Sample.squashTo, Indexes.empty], by decide⟩
  exact @onlyForward .noCrypto Sample.unopened _ _ rfl
    (.snoc (.snoc (.snoc .nil ⟨hnull, rfl⟩) ⟨hcheque, rfl⟩) ⟨hsquash, rfl⟩)

/-- A squash of nothing is let in after one up to five, and then a cheque of index one. -/
theorem not_onlyForward_of_taken :
    ∃ channel', Sample.unopened.Run .noCrypto Sample.taken channel' ∧
      (Sample.squashTo 0 0).index < (Sample.squashTo 0 5).index ∧
      (Sample.squashTo 0 5).isIndexSquashed Sample.cheque.index = true ∧
      ¬OnlyForward Sample.taken channel' := by
  refine ⟨_, .snoc (.snoc (.snoc .nil rfl) rfl) rfl, by decide, by decide, fun h => ?_⟩
  have hindex := (List.rel_of_pairwise_cons h.squashes List.mem_cons_self).index
  exact absurd hindex (by decide)

end Konduit.Server
