import Mathlib.Data.Prod.Lex
import Konduit.Data.Stage
import Konduit.Lib.Result
import Konduit.Tmp.Receipt

/-!
# Channels according to the server

What the server knows of a channel: the retainer it saw on chain, and the receipt that its
consumer has handed out.
-/

open Lib

namespace Konduit.Server

open Data Tmp

/-- Why a channel refuses an event. -/
inductive ChannelError where
  | notActive
  | noRetainer
  | noReceipt
  | capacity
  | funds
  | input
  | verify
  | receipt (e : ReceiptError)
deriving DecidableEq

/-- The channel on chain.  The length of a vector is a machine word. -/
structure Retainer where
  amount : UInt64
  subbed : UInt64
  useds : List Used
  length_useds : useds.length < 2 ^ 64
deriving DecidableEq

/-- What the server keeps of a channel beside its receipt. -/
structure Aux where
  isActive : Bool
deriving DecidableEq

instance : Inhabited Aux := ⟨⟨true⟩⟩

/-- A channel as the server serves it. -/
structure Channel where
  key : VerifyingKey
  tag : Tag
  retainer : Option Retainer
  receipt : Option Receipt
  aux : Aux
deriving DecidableEq

namespace Channel

/-- A channel of which nothing is known. -/
def new (key : VerifyingKey) (tag : Tag) : Channel := ⟨key, tag, none, none, default⟩

/-! ### Queries -/

/-- Refuse what is not active. -/
def assertActive (self : Channel) : Except ChannelError Unit :=
  if self.aux.isActive then .ok () else .error .notActive

/-- The retainer, where there is one. -/
def getRetainer (self : Channel) : Except ChannelError Retainer :=
  match self.retainer with
  | some retainer => .ok retainer
  | none => .error .noRetainer

/-- The receipt, where there is one. -/
def getReceipt (self : Channel) : Except ChannelError Receipt :=
  match self.receipt with
  | some receipt => .ok receipt
  | none => .error .noReceipt

/-- The funds that no cheque lays claim to. -/
def uncommitted (self : Channel) : Except ChannelError UInt64 := do
  self.assertActive
  let retainer ← self.getRetainer
  let receipt ← self.getReceipt
  if receipt.capacity = 0 then throw .capacity
  let relCommitted := Word.satSub receipt.committed retainer.subbed
  return Word.satSub retainer.amount relCommitted

/-- The index that is quoted for the next cheque. -/
def nextIndex (self : Channel) : Except ChannelError UInt64 := do
  self.assertActive
  let retainer ← self.getRetainer
  let receipt ← self.getReceipt
  return max ((retainer.useds.getLast?.map Used.index).getD 0) receipt.proposeIndex

/-- The next index, where the channel has more than the amount. -/
def canCommit (self : Channel) (x : UInt64) : Except ChannelError UInt64 := do
  let uncommitted ← self.uncommitted
  if uncommitted > x then self.nextIndex else throw .funds

/-- The squash of all unlocked cheques. -/
def proposeSquash (self : Channel) (usizeBits : ℕ) : Except ChannelError SquashProposal := do
  let receipt ← self.getReceipt
  (receipt.proposeSquash usizeBits).mapError .receipt

/-! ### Events -/

/-- The last of the elements with the greatest key. -/
def maxByKey {α β : Type} [LT β] [DecidableLT β] (key : α → β) : List α → Option α
  | [] => none
  | x :: xs => some (xs.foldl (fun x y => if key y < key x then x else y) x)

/-- Take the best of the channels on chain: the one that pays the most of what is committed,
and of these the richest. -/
def applyRetainer (self : Channel) (candidates : List Retainer) : Except ChannelError Channel :=
  let retainer :=
    match self.receipt with
    | none => maxByKey Retainer.amount candidates
    | some receipt => maxByKey (fun l1 =>
        toLex (min (Word.satSub receipt.committed l1.subbed) l1.amount, l1.amount)) candidates
  .ok { self with retainer }

variable (crypto : Crypto)

/-- Take a squash: the first one makes the receipt. -/
def applySquash (self : Channel) (squash : Squash .unverified) : Except ChannelError Channel := do
  let squash ← (squash.tryVerify crypto self.key self.tag).mapError fun _ => .verify
  match self.receipt with
  | none => return { self with receipt := some (.new squash) }
  | some receipt =>
    let receipt ← (receipt.applySquash squash).mapError .receipt
    return { self with receipt := some receipt }

/-- Take a cheque that is covered by the uncommitted funds. -/
def applyLocked (self : Channel) (locked : Locked .unverified) : Except ChannelError Channel := do
  let locked ← (locked.tryVerify crypto self.key self.tag).mapError fun _ => .verify
  let uncommitted ← self.uncommitted
  if locked.amount > uncommitted then throw .funds
  let receipt ← self.getReceipt
  let receipt ← (receipt.applyLocked locked).mapError .receipt
  return { self with receipt := some receipt }

/-- Unlock the cheques that the secret opens. -/
def applySecret (self : Channel) (secret : Secret) : Except ChannelError Channel := do
  let receipt ← self.getReceipt
  let receipt ← (receipt.applySecret crypto secret).mapError .receipt
  return { self with receipt := some receipt }

/-- Take one secret after another. -/
def applySecrets (self : Channel) (secrets : List Secret) : Except ChannelError Channel :=
  secrets.foldlM (applySecret crypto) self

end Channel

/-! ### What an accepted event changes -/

section Events

variable {crypto : Crypto} {self self' : Channel} {receipt : Receipt}

lemma Channel.getReceipt_eq_ok : self.getReceipt = .ok receipt ↔ self.receipt = some receipt := by
  rw [getReceipt]
  split <;> simp_all

/-- An accepted squash verifies, and makes the receipt or is let in by it. -/
lemma Channel.applySquash_cases {squash : Squash .unverified}
    (h : self.applySquash crypto squash = .ok self') :
    ∃ verified receipt, squash.tryVerify crypto self.key self.tag = .ok verified ∧
      self' = { self with receipt := some receipt } ∧
        (self.receipt = none ∧ receipt = .new verified ∨
          ∃ old, self.receipt = some old ∧ old.applySquash verified = .ok receipt) := by
  simp only [applySquash, Result.bind_eq_ok, Result.mapError_eq_ok] at h
  obtain ⟨verified, hverify, h⟩ := h
  split at h
  · rename_i hnone
    obtain rfl := Result.pure_eq_ok.mp h
    exact ⟨verified, _, hverify, rfl, Or.inl ⟨hnone, rfl⟩⟩
  · rename_i old hold
    simp only [Result.bind_eq_ok, Result.mapError_eq_ok, Result.pure_eq_ok] at h
    obtain ⟨receipt, hreceipt, rfl⟩ := h
    exact ⟨verified, receipt, hverify, rfl, Or.inr ⟨old, hold, hreceipt⟩⟩

/-- An accepted squash verifies, and the receipt is new or lets the squash in. -/
lemma Channel.applySquash_eq_ok {squash : Squash .unverified}
    (h : self.applySquash crypto squash = .ok self') :
    ∃ receipt, self' = { self with receipt := some receipt } ∧
      squash.tryVerify crypto self.key self.tag = .ok receipt.squash ∧
        (receipt.cheques = [] ∨
          ∃ old, self.receipt = some old ∧ old.applySquash receipt.squash = .ok receipt) := by
  obtain ⟨verified, receipt, hverify, rfl, ⟨-, rfl⟩ | ⟨old, hold, happly⟩⟩ := applySquash_cases h
  · exact ⟨_, rfl, hverify, Or.inl rfl⟩
  · have hsquash : receipt.squash = verified := by
      rw [(Receipt.applySquash_eq_ok.mp happly).2]
    exact ⟨receipt, rfl, hsquash ▸ hverify, Or.inr ⟨old, hold, hsquash ▸ happly⟩⟩

/-- An accepted cheque verifies, is covered, and is taken by the receipt. -/
lemma Channel.applyLocked_cases {locked : Locked .unverified}
    (h : self.applyLocked crypto locked = .ok self') :
    ∃ receipt receipt' verified uncommitted, self.receipt = some receipt ∧
      locked.tryVerify crypto self.key self.tag = .ok verified ∧
      self.uncommitted = .ok uncommitted ∧ verified.amount ≤ uncommitted ∧
      receipt.applyLocked verified = .ok receipt' ∧
      self' = { self with receipt := some receipt' } := by
  simp only [applyLocked, Result.bind_eq_ok, Result.mapError_eq_ok] at h
  obtain ⟨verified, hverify, uncommitted, huncommitted, h⟩ := h
  split_ifs at h with hfunds
  · exact (Result.throw_eq_ok.mp h).elim
  simp only [Result.bind_eq_ok, Result.mapError_eq_ok, getReceipt_eq_ok, Result.pure_eq_ok] at h
  obtain ⟨receipt, hreceipt, receipt', happly, rfl⟩ := h
  exact ⟨receipt, receipt', verified, uncommitted, hreceipt, hverify, huncommitted,
    not_lt.mp hfunds, happly, rfl⟩

/-- An accepted cheque verifies, is covered, and is the receipt's last. -/
lemma Channel.applyLocked_eq_ok {locked : Locked .unverified}
    (h : self.applyLocked crypto locked = .ok self') :
    ∃ receipt verified uncommitted, self.receipt = some receipt ∧
      locked.tryVerify crypto self.key self.tag = .ok verified ∧
      self.uncommitted = .ok uncommitted ∧ verified.amount ≤ uncommitted ∧
      self' = { self with
        receipt := some { receipt with cheques := receipt.cheques ++ [.locked verified] } } := by
  obtain ⟨receipt, receipt', verified, uncommitted, hreceipt, hverify, huncommitted, hfunds, happly,
    rfl⟩ := applyLocked_cases h
  obtain ⟨-, rfl⟩ := Receipt.applyLocked_eq_ok.mp happly
  exact ⟨receipt, verified, uncommitted, hreceipt, hverify, huncommitted, hfunds, rfl⟩

/-- There is room for one more cheque where funds are uncommitted. -/
lemma Channel.length_lt_of_uncommitted {uncommitted : UInt64}
    (h : self.uncommitted = .ok uncommitted) (hreceipt : self.receipt = some receipt) :
    receipt.cheques.length < maxUnsquashed := by
  simp only [Channel.uncommitted, Result.bind_eq_ok, getReceipt_eq_ok] at h
  obtain ⟨_, _, _, _, receipt', hreceipt', h⟩ := h
  obtain rfl := Option.some.inj (hreceipt.symm.trans hreceipt')
  -- a full receipt is refused
  by_contra hlen
  have hcapacity : receipt.capacity = 0 := by
    rw [Receipt.capacity]
    omega
  rw [if_pos hcapacity] at h
  exact Result.throw_eq_ok.mp h

/-- An accepted secret unlocks some of the receipt's cheques. -/
lemma Channel.applySecret_eq_ok {secret : Secret} (h : self.applySecret crypto secret = .ok self') :
    ∃ receipt, self.receipt = some receipt ∧
      self' = { self with receipt := some { receipt with
        cheques := receipt.cheques.map (Receipt.unlockCheque crypto secret) } } := by
  simp only [applySecret, Result.bind_eq_ok, Result.mapError_eq_ok, getReceipt_eq_ok,
    Result.pure_eq_ok] at h
  obtain ⟨receipt, hreceipt, receipt', happly, rfl⟩ := h
  obtain ⟨-, rfl⟩ := Receipt.applySecret_eq_ok.mp happly
  exact ⟨receipt, hreceipt, rfl⟩

end Events

end Konduit.Server
