import Konduit.Server.Squashes

/-!
# What the adaptor can pay

A cheque is taken when its amount is uncommitted: covered by what the retainer still pays above
what the consumer has committed to.  The amounts are words and their sums wrap, so a squash of a
great amount may make what is committed small.  In a run, what is committed is covered after each
cheque, and no sum wraps, just when each squash and each cheque fits (`solvent_iff`).
-/

open Lib

namespace Konduit.Server

open Data Tmp

/-- No sum of the receipt wraps. -/
def Channel.Exact (self : Channel) : Prop :=
  ∀ receipt ∈ self.receipt, receipt.exactCommitted < 2 ^ 64

/-- There are not too many cheques, and the retainer covers them all. -/
def Channel.Solvent (self : Channel) : Prop :=
  ∃ receipt ∈ self.receipt, ∃ retainer ∈ self.retainer,
    receipt.cheques.length ≤ maxUnsquashed ∧
      receipt.exactCommitted ≤ retainer.subbed.toNat + retainer.amount.toNat

/-- After an event no sum wraps, and after a cheque that is worth something the channel is
solvent. -/
def ChannelEvent.KeepsSolvent (_channel : Channel) (event : ChannelEvent) (channel' : Channel) :
    Prop :=
  channel'.Exact ∧ ∀ locked, event = .locked locked → 0 < locked.amount → channel'.Solvent

/-- A squash fits beside the cheques that it leaves, a cheque beside all that is committed. -/
def ChannelEvent.Fits (channel : Channel) : ChannelEvent → Prop
  | .squash new => ∀ receipt ∈ channel.receipt, new.amount.toNat +
      ((receipt.cheques.filter fun c => !new.isIndexSquashed c.index).map fun c =>
        c.amount.toNat).sum < 2 ^ 64
  | .locked cheque => ∀ receipt ∈ channel.receipt,
      receipt.exactCommitted + cheque.amount.toNat < 2 ^ 64
  | _ => True

section Solvency

variable {crypto : Crypto} {channel channel' : Channel} {receipt : Receipt} {retainer : Retainer}
  {uncommitted : UInt64}

/-! ### What is uncommitted -/

/-- What is uncommitted is what the retainer pays, less what is committed of it. -/
lemma Channel.uncommitted_eq_ok (hreceipt : channel.receipt = some receipt) :
    channel.uncommitted = .ok uncommitted ↔ channel.aux.isActive = true ∧
      receipt.cheques.length < maxUnsquashed ∧ ∃ retainer, channel.retainer = some retainer ∧
        uncommitted =
          Word.satSub retainer.amount (Word.satSub receipt.committed retainer.subbed) := by
  have hactive : ∀ u, channel.assertActive = .ok u ↔ channel.aux.isActive = true := fun u => by
    rw [assertActive]
    split_ifs with h <;> simp [h]
  have hretainer : ∀ r, channel.getRetainer = .ok r ↔ channel.retainer = some r := fun r => by
    rw [getRetainer]
    cases channel.retainer <;> simp
  have hcapacity : receipt.capacity = 0 ↔ ¬receipt.cheques.length < maxUnsquashed := by
    rw [Receipt.capacity]
    omega
  simp only [Channel.uncommitted, Result.bind_eq_ok, hactive, hretainer, getReceipt_eq_ok, hreceipt,
    Option.some.injEq, exists_eq_left', hcapacity, exists_and_left, exists_const]
  refine and_congr_right fun _ => ?_
  constructor
  · rintro ⟨retainer, hretainer, h⟩
    split_ifs at h with hlength
    · exact ⟨hlength, retainer, hretainer, (Result.pure_eq_ok.mp h).symm⟩
    · exact absurd h (by simp [bind, Except.bind, throw, throwThe, MonadExceptOf.throw])
  · rintro ⟨hlength, retainer, hretainer, rfl⟩
    refine ⟨retainer, hretainer, ?_⟩
    rw [if_neg (not_not.mpr hlength)]
    rfl

/-- Where no sum wraps, a positive amount that is uncommitted is covered beside what is
committed. -/
lemma exactCommitted_add_le {amount : UInt64} (hexact : receipt.exactCommitted < 2 ^ 64)
    (hpos : 0 < amount) (hle : amount ≤
      Word.satSub retainer.amount (Word.satSub receipt.committed retainer.subbed)) :
    receipt.exactCommitted + amount.toNat ≤ retainer.subbed.toNat + retainer.amount.toNat := by
  rw [UInt64.lt_iff_toNat_lt, UInt64.toNat_zero] at hpos
  rw [UInt64.le_iff_toNat_le, Word.toNat_satSub, Word.toNat_satSub, Receipt.toNat_committed,
    Nat.mod_eq_of_lt hexact] at hle
  omega

/-! ### What an event does to the amounts -/

lemma exactCommitted_append (locked : Locked .verified) :
    ({ receipt with cheques := receipt.cheques ++ [.locked locked] } : Receipt).exactCommitted =
      receipt.exactCommitted + locked.amount.toNat := by
  simp [Receipt.exactCommitted, Cheque.amount, add_assoc]

lemma exactCommitted_unlock (secret : Secret) :
    ({ receipt with cheques := receipt.cheques.map (Receipt.unlockCheque crypto secret) } :
      Receipt).exactCommitted = receipt.exactCommitted := by
  simp [Receipt.exactCommitted, Function.comp_def, Receipt.amount_unlockCheque]

/-- Secrets leave what is committed. -/
lemma exact_of_applySecret {secret : Secret}
    (h : channel.applySecret crypto secret = .ok channel') (hexact : channel.Exact) :
    channel'.Exact := by
  obtain ⟨receipt, hreceipt, rfl⟩ := Channel.applySecret_eq_ok h
  intro receipt' hreceipt'
  obtain rfl := Option.some.inj hreceipt'
  rw [exactCommitted_unlock]
  exact hexact receipt hreceipt

lemma exact_of_applySecrets {secrets : List Secret}
    (h : channel.applySecrets crypto secrets = .ok channel') (hexact : channel.Exact) :
    channel'.Exact := by
  rw [Channel.applySecrets] at h
  exact Result.foldlM_invariant (fun _ _ _ hexact h => exact_of_applySecret h hexact) hexact h

/-- A squash that is taken fits just when no sum wraps after it. -/
lemma exact_iff_of_applySquash {squash : Squash .unverified}
    (h : channel.applySquash crypto squash = .ok channel') :
    channel'.Exact ↔ (ChannelEvent.squash squash).Fits channel := by
  obtain ⟨verified, receipt, hverify, rfl, hcases⟩ := Channel.applySquash_cases h
  obtain ⟨-, rfl⟩ := Squash.tryVerify_eq_ok.mp hverify
  simp only [Channel.Exact, ChannelEvent.Fits, Option.mem_def, Option.some.injEq, forall_eq']
  rcases hcases with ⟨hnone, rfl⟩ | ⟨old, hold, happly⟩
  · have hlt := (squash.withState .verified).amount.toNat_lt
    simpa [hnone, Receipt.exactCommitted, Receipt.new] using hlt
  · obtain ⟨-, rfl⟩ := Receipt.applySquash_eq_ok.mp happly
    simp only [hold, Option.some.injEq, forall_eq']
    rfl

/-- A cheque that is taken is covered, and fits just when no sum wraps after it. -/
lemma solvent_of_applyLocked {locked : Locked .unverified}
    (h : channel.applyLocked crypto locked = .ok channel') (hexact : channel.Exact) :
    (channel'.Exact ↔ (ChannelEvent.locked locked).Fits channel) ∧
      (0 < locked.amount → channel'.Solvent) := by
  obtain ⟨receipt, verified, uncommitted, hreceipt, hverify, huncommitted, hle, rfl⟩ :=
    Channel.applyLocked_eq_ok h
  obtain ⟨-, rfl⟩ := Locked.tryVerify_eq_ok.mp hverify
  obtain ⟨-, hlength, retainer, hretainer, rfl⟩ :=
    (Channel.uncommitted_eq_ok hreceipt).mp huncommitted
  constructor
  · simp only [Channel.Exact, ChannelEvent.Fits, hreceipt, Option.mem_def, Option.some.injEq,
      forall_eq', exactCommitted_append]
    rfl
  · intro hpos
    refine ⟨_, rfl, retainer, hretainer, ?_, ?_⟩
    · rw [List.length_append]
      exact hlength
    · rw [exactCommitted_append]
      exact exactCommitted_add_le (hexact receipt hreceipt) hpos hle

/-- A cheque that is taken fits where the sum of what the retainer paid and pays is a word. -/
lemma fits_of_retainer {locked : Locked .unverified}
    (h : channel.applyLocked crypto locked = .ok channel') (hexact : channel.Exact)
    (hpos : 0 < locked.amount) (hretainer : ∀ retainer ∈ channel.retainer,
      retainer.subbed.toNat + retainer.amount.toNat < 2 ^ 64) :
    (ChannelEvent.locked locked).Fits channel := by
  obtain ⟨hfits, hsolvent⟩ := solvent_of_applyLocked h hexact
  obtain ⟨receipt, hreceipt, retainer, hmem, -, hle⟩ := hsolvent hpos
  rw [← hfits]
  intro receipt' hreceipt'
  obtain rfl := Option.some.inj (hreceipt.symm.trans hreceipt')
  have hkept : channel'.retainer = channel.retainer := by
    obtain ⟨_, _, _, -, -, -, -, rfl⟩ := Channel.applyLocked_eq_ok h
    rfl
  exact hle.trans_lt (hretainer retainer (hkept ▸ hmem))

/-- One step: it keeps the channel solvent just when the event fits. -/
lemma keepsSolvent_iff_fits {event : ChannelEvent} (hexact : channel.Exact)
    (h : channel.apply crypto event = .ok channel') :
    event.KeepsSolvent channel channel' ↔ event.Fits channel := by
  cases event with
  | squash squash => simp [ChannelEvent.KeepsSolvent, exact_iff_of_applySquash h]
  | locked locked =>
    obtain ⟨hfits, hsolvent⟩ := solvent_of_applyLocked h hexact
    simpa [ChannelEvent.KeepsSolvent, hfits] using fun _ => hsolvent
  | secret secret =>
    simp [ChannelEvent.KeepsSolvent, ChannelEvent.Fits, exact_of_applySecret h hexact]
  | secrets secrets =>
    simp [ChannelEvent.KeepsSolvent, ChannelEvent.Fits, exact_of_applySecrets h hexact]
  | retainers candidates =>
    obtain rfl := Except.ok.inj h
    simp only [ChannelEvent.KeepsSolvent, ChannelEvent.Fits, reduceCtorEq, false_implies,
      implies_true, and_true, iff_true]
    exact hexact

/-- **Solvency.**  In every run of a channel from before its receipt, no sum wraps, and what is
committed is covered after each cheque that is worth something, just when each squash that is
taken fits beside the cheques it leaves, and each cheque beside what is committed. -/
theorem solvent_iff {events : List ChannelEvent} (hnone : channel.receipt = none) :
    Trace.EachStep (fun channel event channel' => channel.apply crypto event = .ok channel')
        channel events (fun channel event channel' => event.KeepsSolvent channel channel') ↔
      Trace.EachStep (fun channel event channel' => channel.apply crypto event = .ok channel')
        channel events fun channel event _ => event.Fits channel :=
  Trace.eachStep_iff (I := Channel.Exact) (by simp [Channel.Exact, hnone])
    (fun _ _ _ hexact h => keepsSolvent_iff_fits hexact h)
    fun _ _ _ hexact h hfits => ((keepsSolvent_iff_fits hexact h).mpr hfits).1

end Solvency

namespace Sample

/-- A cheque over one lovelace. -/
def chequeAt (index : UInt64) : Locked .unverified :=
  ⟨⟨index, 1, .fromSecs 100_000, ⟨BytesN.fill 32 0⟩⟩, ⟨BytesN.fill 64 0⟩⟩

/-- A retainer, the null squash, a cheque, a squash of the greatest amount but of no cheque, and
another cheque. -/
def overdrawn : List ChannelEvent :=
  [.retainers [retainer], .squash (squashTo 0 0), .locked (chequeAt 1),
    .squash (squashTo Word.maxValue 0), .locked (chequeAt 2)]

end Sample

/-- The null squash and a cheque fit. -/
theorem solvent_of_cheque :
    Trace.EachStep (fun channel event channel' => channel.apply .noCrypto event = .ok channel')
      Sample.unopened [.squash (Sample.squashTo 0 0), .locked (Sample.chequeAt 1)]
      fun channel event channel' => event.KeepsSolvent channel channel' := by
  refine (solvent_iff rfl).mpr ?_
  have hsquash : Channel.Run .noCrypto Sample.unopened [.squash (Sample.squashTo 0 0)]
      (Sample.opened (Sample.squashTo 0 0) []) := .snoc .nil rfl
  intro before event after channel channel' hevents hrun _
  match before with
  | [] =>
    obtain ⟨rfl, -⟩ := List.cons_eq_cons.mp hevents
    obtain rfl := Trace.unique (fun h h' => Except.ok.inj (h.symm.trans h')) .nil hrun
    simp [ChannelEvent.Fits, Sample.unopened]
  | [first] =>
    rw [List.singleton_append, List.cons_eq_cons, List.cons_eq_cons] at hevents
    obtain ⟨rfl, rfl, -⟩ := hevents
    obtain rfl := Trace.unique (fun h h' => Except.ok.inj (h.symm.trans h')) hsquash hrun
    intro receipt hreceipt
    obtain rfl := Option.some.inj hreceipt
    decide
  | _ :: _ :: _ => simp at hevents

/-- The sum of a great squash and a cheque wraps, so that another cheque is taken although
nothing covers it. -/
theorem not_solvent_of_overdrawn :
    ¬Trace.EachStep (fun channel event channel' => channel.apply .noCrypto event = .ok channel')
      (Channel.new ⟨BytesN.fill 32 0⟩ ⟨[]⟩) Sample.overdrawn
      fun channel event channel' => event.KeepsSolvent channel channel' := by
  intro h
  have hrun : Channel.Run .noCrypto (Channel.new ⟨BytesN.fill 32 0⟩ ⟨[]⟩) (Sample.overdrawn.take 4)
      (Sample.opened (Sample.squashTo Word.maxValue 0)
        [.locked ((Sample.chequeAt 1).withState .verified)]) :=
    .snoc (.snoc (.snoc (.snoc .nil rfl) rfl) rfl) rfl
  have hlast := (h (Sample.overdrawn.take 4) (.locked (Sample.chequeAt 2)) [] _ _ rfl hrun rfl).2
  obtain ⟨receipt, hreceipt, retainer, hretainer, -, hle⟩ := hlast _ rfl (by decide)
  obtain rfl := Option.some.inj hreceipt
  obtain rfl := Option.some.inj hretainer
  exact absurd hle (by decide)

end Konduit.Server
