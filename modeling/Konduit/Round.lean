import Konduit.Client.L2
import Konduit.Server.Store

/-!
# Squash rounds

A round of squashing between an honest adaptor and an honest consumer.  The adaptor proposes
a squash of the unlocked cheques, the consumer signs it, the receipt takes the squash, and
the consumer is done when it sees the next proposal.  The two parties reckon on their own
what there is to squash; the module shows when they agree (`completes_iff`).
-/

open Lib

namespace Konduit.Round

open Data Tmp L2 Server

section Round

variable (crypto : Crypto) (usizeBits : ℕ) (sk : SigningKey) (tag : Tag) (lockeds : Lockeds)

/-- The sync of a consumer that confirms. -/
def confirm (st : SquashProposal) (responses : List SquashStatus) :
    List Signed × Except SyncError (List Lock) :=
  sync crypto lockeds.asFilter ⟨sk, some tag⟩ true (.incomplete st) responses

/-- A round goes through: there was nothing to squash, or the consumer signs the proposal, the
receipt takes the squash and is left with no unlocked cheque, and the consumer is done when
it sees the next proposal. -/
inductive Completes (receipt : Receipt) (st : SquashProposal) : Prop
  | settled : receipt.unlockeds = [] → confirm crypto sk tag lockeds st [] = ([], .ok []) →
      Completes receipt st
  | squashed {squash : Squash .verified} {receipt' : Receipt} {st' : SquashProposal}
      {locks : List Lock} : squash.body = st.proposal →
      receipt.applySquash squash = .ok receipt' → receipt'.unlockeds = [] →
      receipt'.proposeSquash usizeBits = .ok st' →
      confirm crypto sk tag lockeds st [.incomplete st'] = ([⟨st, squash⟩], .ok locks) →
      Completes receipt st

variable {crypto usizeBits sk tag lockeds} {receipt : Receipt} {st : SquashProposal}

/-! ### The consumer's side -/

/-- Cheques that are expected are not counted. -/
lemma credited_eq_nil (h : receipt.proposeSquash usizeBits = .ok st)
    (hexpected : ∀ u ∈ receipt.unlockeds, lockeds.asFilter (unlockedLock crypto u) = true) :
    credited crypto lockeds.asFilter st = [] := by
  obtain ⟨proposal, -, rfl⟩ := Receipt.proposeSquash_eq_ok.mp h
  rw [credited, List.filter_eq_nil_iff]
  intro u hu
  obtain ⟨u', hu', rfl⟩ := List.mem_map.mp hu
  have hlock : lockeds.asFilter (unlockedLock crypto (u'.withState .unverified)) = true :=
    hexpected u' hu'
  simp [hlock]

/-- What an honest consumer makes of an honest proposal: it is done, or it signs what adds
nothing to the squash, and refuses what does. -/
lemma round_eq (hwf : receipt.squash.body.WellFormed)
    (hverify : (receipt.squash.withState .unverified).tryVerify crypto (sk.verifyingKey crypto)
      tag = .ok receipt.squash)
    (h : receipt.proposeSquash usizeBits = .ok st)
    (hexpected : ∀ u ∈ receipt.unlockeds, lockeds.asFilter (unlockedLock crypto u) = true) :
    L2.round crypto lockeds.asFilter ⟨sk, some tag⟩ tag st =
      if receipt.unlockeds = [] then .ok none
      else if receipt.owed > receipt.squash.amount then
        .error (.notOwed receipt.owed receipt.squash.amount)
      else .ok (some (Squash.make crypto sk tag st.proposal, [])) := by
  obtain ⟨-, hamount, hself, -⟩ := Receipt.proposal_spec hwf h
  have hnil := credited_eq_nil h hexpected
  have hvalue : unlockedValue crypto lockeds.asFilter st = 0 := by simp [unlockedValue, hnil]
  have hcurrent : st.current = receipt.squash.withState .unverified := by
    obtain ⟨proposal, -, rfl⟩ := Receipt.proposeSquash_eq_ok.mp h
    rfl
  have hbody : (receipt.squash.withState .unverified).body = st.proposal ↔
      receipt.unlockeds = [] := hself
  simp only [L2.round, hcurrent, hbody, hverify, hamount, hvalue, UInt64.add_zero, hnil,
    List.map_nil]

/-- A consumer that confirms signs what a round tells it to. -/
lemma signFor_eq {r : Option (Squash .verified × List Lock)}
    (h : L2.round crypto lockeds.asFilter ⟨sk, some tag⟩ tag st = .ok r) :
    signFor crypto lockeds.asFilter ⟨sk, some tag⟩ true (.incomplete st) =
      .ok (r.map fun (squash, locks) => (⟨st, squash⟩, locks)) := by
  simp [signFor, h, Except.map]

/-- When a round has nothing to sign, the consumer is done. -/
lemma confirm_of_done (h : L2.round crypto lockeds.asFilter ⟨sk, some tag⟩ tag st = .ok none) :
    confirm crypto sk tag lockeds st [] = ([], .ok []) := by
  simp [confirm, sync, signFor_eq h]

/-- When a round signs and the next has nothing to sign, one squash is signed. -/
lemma confirm_of_signed {st' : SquashProposal} {squash : Squash .verified} {locks : List Lock}
    (h : L2.round crypto lockeds.asFilter ⟨sk, some tag⟩ tag st = .ok (some (squash, locks)))
    (hdone : L2.round crypto lockeds.asFilter ⟨sk, some tag⟩ tag st' = .ok none) :
    confirm crypto sk tag lockeds st [.incomplete st'] = ([⟨st, squash⟩], .ok locks) := by
  simp [confirm, sync, signFor_eq h, signFor_eq hdone, Except.map]

/-! ### Both sides -/

/-- **An honest round.**  For a receipt that the server reads, and a consumer that expects
every unlocked cheque, the round completes just when there is nothing to squash or the
unlocked cheques add nothing to the squash: what is owed, as a machine word, is no more than
what is squashed, and no less than the squash with the cheques that go. -/
theorem completes_iff {parseInvoice : PayBody.ParseInvoice}
    (hreach : Reachable crypto parseInvoice ⟨sk.verifyingKey crypto, tag⟩ receipt)
    (hpropose : receipt.proposeSquash usizeBits = .ok st)
    (hexpected : ∀ u ∈ receipt.unlockeds, lockeds.asFilter (unlockedLock crypto u) = true) :
    Completes crypto usizeBits sk tag lockeds receipt st ↔
      receipt.unlockeds = [] ∨
        receipt.owed ≤ receipt.squash.amount ∧
          receipt.squash.amount + Word.sum (receipt.squashable.map Cheque.amount) ≤
            receipt.owed := by
  obtain ⟨hwf, hverify⟩ := hreach.squash
  have hround := round_eq hwf hverify hpropose hexpected
  by_cases hnil : receipt.unlockeds = []
  · rw [if_pos hnil] at hround
    exact iff_of_true (.settled hnil (confirm_of_done hround)) (Or.inl hnil)
  rw [if_neg hnil] at hround
  constructor
  · rintro (⟨hnil', -⟩ | @⟨squash, receipt', st', locks, hbody, happly, -, -, hsync⟩)
    · exact absurd hnil' hnil
    · -- the proposal was signed, so it adds nothing
      have hmem : (⟨st, squash⟩ : Signed) ∈ (confirm crypto sk tag lockeds st
          [.incomplete st']).1 := by simp [hsync]
      obtain ⟨-, hreached, -⟩ := (mem_sync_iff rfl).mp hmem
      have hsigned := round_eq_ok_some.mpr ⟨hreached.signs, rfl, rfl⟩
      rw [hround] at hsigned
      split_ifs at hsigned with howed
      have haccept := (Receipt.applySquash_proposal hwf hpropose hbody).mp ⟨receipt', happly⟩
      exact Or.inr ⟨not_lt.mp howed, haccept⟩
  · rintro (hnil' | ⟨howed, haccept⟩)
    · exact absurd hnil' hnil
    · rw [if_neg (not_lt.mpr howed)] at hround
      obtain ⟨hwf', -⟩ := Receipt.proposal_spec hwf hpropose
      have hbody : (Squash.make crypto sk tag st.proposal).body = st.proposal := rfl
      obtain ⟨receipt', happly⟩ :=
        (Receipt.applySquash_proposal hwf hpropose hbody).mpr haccept
      obtain ⟨hsquash, hnil'⟩ := Receipt.unlockeds_applySquash hwf hpropose hbody happly
      obtain ⟨st', hpropose'⟩ := @Receipt.proposeSquash_of_nil usizeBits _ hnil'
      -- what was just signed is what is proposed next
      have hwf'' : receipt'.squash.body.WellFormed := by
        rw [hsquash]
        exact hwf'
      have hverify' : (receipt'.squash.withState .unverified).tryVerify crypto
          (sk.verifyingKey crypto) tag = .ok receipt'.squash := by
        rw [hsquash]
        exact Squash.tryVerify_make sk st.proposal
      have hdone : L2.round crypto lockeds.asFilter ⟨sk, some tag⟩ tag st' = .ok none := by
        rw [round_eq hwf'' hverify' hpropose' (by simp [hnil']), if_pos hnil']
      exact .squashed rfl happly hnil' hpropose' (confirm_of_signed hround hdone)

end Round

/-! ### A cheque that is expected -/

namespace Sample

/-- What the run with the cheque and its secret ends with is read. -/
lemma reachable {amount : UInt64}
    (hrun : Run .noCrypto Server.Sample.parseInvoice (Server.Sample.store none)
      (Server.Sample.toUnlocked amount)
      (Server.Sample.store (some (Server.Sample.unlocked amount)))) :
    Reachable .noCrypto Server.Sample.parseInvoice Server.Sample.keytag
      (Server.Sample.unlocked amount) := by
  have htimeout : (Duration.fromSecs 100_000).Canonical := by decide
  exact ⟨_, _, _, _, Server.Sample.store_fresh, hrun,
    Server.Sample.get_store (List.forall_mem_singleton.mpr htimeout) (by simp [maxUnsquashed]), rfl⟩

/-- A key of zero bytes. -/
def signingKey : SigningKey := ⟨BytesN.fill 32 0⟩

/-- The consumer expects the cheque. -/
def lockeds : Lockeds := ⟨some [⟨Crypto.zeroLock⟩]⟩

end Sample

/-- A round for an unlocked cheque over nothing completes. -/
theorem completes_of_zero :
    ∃ st, (Server.Sample.unlocked 0).proposeSquash 64 = .ok st ∧
      Completes .noCrypto 64 Sample.signingKey ⟨[]⟩ Sample.lockeds (Server.Sample.unlocked 0) st ∧
        (Server.Sample.unlocked 0).unlockeds ≠ [] := by
  have hreach : Reachable .noCrypto Server.Sample.parseInvoice
      ⟨Sample.signingKey.verifyingKey .noCrypto, ⟨[]⟩⟩ (Server.Sample.unlocked 0) :=
    Sample.reachable (Server.Sample.run_unlocked rfl ⟨_, rfl⟩)
  exact ⟨_, rfl, (completes_iff hreach rfl (by decide)).mpr (Or.inr (by decide)), by decide⟩

/-- The consumer refuses to squash an unlocked cheque that it expects. -/
theorem not_completes :
    Reachable .noCrypto Server.Sample.parseInvoice
        ⟨Sample.signingKey.verifyingKey .noCrypto, ⟨[]⟩⟩ (Server.Sample.unlocked 2000) ∧
      (∀ u ∈ (Server.Sample.unlocked 2000).unlockeds,
        Sample.lockeds.asFilter (unlockedLock .noCrypto u) = true) ∧
      ∃ st, (Server.Sample.unlocked 2000).proposeSquash 64 = .ok st ∧
        ¬Completes .noCrypto 64 Sample.signingKey ⟨[]⟩ Sample.lockeds (Server.Sample.unlocked 2000)
          st := by
  refine ⟨Sample.reachable (Server.Sample.run_unlocked rfl ⟨_, rfl⟩), by decide, _, rfl, ?_⟩
  rintro (⟨hnil, -⟩ | ⟨-, -, -, -, hsync⟩)
  · exact absurd hnil (by decide)
  · -- nothing is counted, and 2000 is more than nothing
    exact absurd (congrArg Prod.fst hsync) (List.cons_ne_nil _ _).symm

end Konduit.Round
