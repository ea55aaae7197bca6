import Mathlib.Algebra.BigOperators.Group.List.Basic
import Mathlib.Algebra.Order.BigOperators.Group.List
import Konduit.Lib.Trace
import Konduit.Tmp.Receipt

/-!
# Runs of a receipt

Whatever is applied to a receipt, in whatever order, and whether or not it is refused: the cheques
stay in order, none of them is squashed, and each stands for a cheque that was taken, an unlocked
one with the secret of its lock.  What is owed never decreases, and a squash does not decrease what
is committed either (`receipt_kept`).  The sums are exact ones: a run goes on as long as the checks
come out as they do without wrapping.
-/

open Lib

namespace Konduit.Tmp

open Data

namespace Receipt

/-- What changes a receipt. -/
inductive Call where
  | locked (locked : Locked .verified)
  | secret (secret : Secret)
  | timeout (now : Duration)
  | replace (newLocked : Locked .verified)
  | squash (squash : Squash .verified)

namespace Call

/-- What a call makes of a receipt. -/
def run (crypto : Crypto) (self : Receipt) : Call → Except ReceiptError Receipt
  | locked cheque => self.applyLocked cheque
  | secret s => self.applySecret crypto s
  | timeout now => .ok (self.applyTimeout now)
  | replace cheque => self.applyReplace cheque
  | squash new => self.applySquash new

/-- The receipt after a call; one that fails leaves it. -/
def after (crypto : Crypto) (self : Receipt) (call : Call) : Receipt :=
  match call.run crypto self with
  | .ok self' => self'
  | .error _ => self

/-- The check of a call comes out as it does in exact arithmetic. -/
def Exact (self : Receipt) : Call → Prop
  | locked cheque => cheque.index = self.maxIndex + 1 ↔
      cheque.index.toNat = self.maxIndex.toNat + 1
  | squash new =>
    let squashed := self.cheques.filter fun c => new.isIndexSquashed c.index
    new.amount < self.squash.amount + Word.sum (squashed.map Cheque.amount) ↔
      new.amount.toNat < self.squash.amount.toNat + (squashed.map fun c => c.amount.toNat).sum
  | _ => True

/-- A call in exact arithmetic. -/
def Step (crypto : Crypto) (self : Receipt) (call : Call) (self' : Receipt) : Prop :=
  call.Exact self ∧ self' = call.after crypto self

/-- The cheque that a call brings. -/
def brought : Call → Option (Locked .verified)
  | locked cheque | replace cheque => some cheque
  | _ => none

/-- What a call does to the amounts. -/
def Keeps (self self' : Receipt) : Call → Prop
  | locked _ | timeout _ | replace _ => self'.exactOwed = self.exactOwed
  | secret _ => self.exactOwed ≤ self'.exactOwed
  | squash _ => self.exactOwed ≤ self'.exactOwed ∧ self.exactCommitted ≤ self'.exactCommitted

end Call

/-- The cheques are in order and the squash squashes none of them. -/
structure Tidy (receipt : Receipt) : Prop where
  sorted : (receipt.cheques.map Cheque.index).Pairwise (· < ·)
  unsquashed : ∀ i ∈ receipt.cheques.map Cheque.index, receipt.squash.isIndexSquashed i = false

/-- The cheque is the one that was signed, or has the secret in the place of its lock. -/
def StandsFor (crypto : Crypto) (locked : Locked .verified) : Cheque .verified → Prop
  | .locked cheque => cheque = locked
  | .unlocked cheque =>
    cheque.body.locked crypto = locked.body ∧ cheque.signature = locked.signature

/-- What holds of a receipt after calls. -/
structure Kept (crypto : Crypto) (calls : List Call) (receipt : Receipt) : Prop extends
    Tidy receipt where
  signed : ∀ c ∈ receipt.cheques, ∃ locked ∈ calls.filterMap Call.brought,
    StandsFor crypto locked c

section Runs

variable {crypto : Crypto} {self self' : Receipt} {calls : List Call} {call : Call}
  {secret : Secret} {now : Duration} {locked newLocked : Locked .verified}
  {squash : Squash .verified} {c : Cheque .verified}

/-! ### Indexes -/

lemma Tidy.of_sublist (h : self.Tidy) (hsquash : self'.squash = self.squash)
    (hsub : (self'.cheques.map Cheque.index).Sublist (self.cheques.map Cheque.index)) :
    self'.Tidy := by
  refine ⟨h.sorted.sublist hsub, fun i hi => ?_⟩
  rw [hsquash]
  exact h.unsquashed i (hsub.subset hi)

/-- The next cheque is above all others, and above the squash. -/
lemma Tidy.applyLocked (h : self.Tidy) (hexact : (Call.locked locked).Exact self)
    (happly : self.applyLocked locked = .ok self') : self'.Tidy := by
  obtain ⟨hnext, rfl⟩ := applyLocked_eq_ok.mp happly
  have hlt : ∀ i ∈ self.indexes, i < locked.index := by
    intro i hi
    have hle := UInt64.le_iff_toNat_le.mp (le_maxIndex h.sorted hi)
    rw [UInt64.lt_iff_toNat_lt, hexact.mp hnext]
    omega
  refine ⟨sorted_append_locked h.sorted fun i hi => hlt i (List.mem_cons_of_mem _ hi),
    fun i hi => ?_⟩
  · rw [List.map_append] at hi
    rcases List.mem_append.mp hi with hi | hi
    · exact h.unsquashed i hi
    · obtain rfl := List.mem_singleton.mp hi
      have hbehind : self.squash.body.index < locked.index := hlt _ List.mem_cons_self
      have hnot : self.squash.isIndexSquashed locked.index = false := by
        rw [Squash.isIndexSquashed, SquashBody.isIndexSquashed, compare_lt_iff_lt.mpr hbehind]
      exact hnot

lemma Tidy.applySquash (h : self.Tidy) (happly : self.applySquash squash = .ok self') :
    self'.Tidy := by
  obtain ⟨-, rfl⟩ := applySquash_eq_ok.mp happly
  refine ⟨h.sorted.sublist (List.filter_sublist.map _), fun i hi => ?_⟩
  obtain ⟨c, hc, rfl⟩ := List.mem_map.mp hi
  simpa using (List.mem_filter.mp hc).2

/-- Every call keeps the cheques in order and unsquashed. -/
lemma Tidy.run (h : self.Tidy) (hexact : call.Exact self)
    (hrun : call.run crypto self = .ok self') : self'.Tidy := by
  cases call with
  | locked locked => exact h.applyLocked hexact hrun
  | secret secret =>
    obtain ⟨-, rfl⟩ := applySecret_eq_ok.mp hrun
    exact h.of_sublist rfl (map_index_unlock crypto secret self.cheques ▸ List.Sublist.refl _)
  | timeout now =>
    obtain rfl := Except.ok.inj hrun
    exact h.of_sublist rfl (List.filter_sublist.map _)
  | replace newLocked =>
    obtain ⟨before, after, old, hsplit, -, hindex, -, -, -, rfl⟩ := applyReplace_eq_ok.mp hrun
    have hindex : (Cheque.locked old).index = (Cheque.locked newLocked).index := hindex
    refine h.of_sublist rfl ?_
    rw [hsplit, List.map_append, List.map_append, List.map_cons, List.map_cons, hindex]
  | squash squash => exact h.applySquash hrun

/-! ### Signed cheques -/

/-- A cheque that a secret unlocks stands for what it stood for. -/
lemma StandsFor.unlockCheque (h : StandsFor crypto locked c) :
    StandsFor crypto locked (unlockCheque crypto secret c) := by
  cases hlocked : lockedBy crypto secret c with
  | false => rwa [unlockCheque_of_not_lockedBy hlocked]
  | true =>
    obtain ⟨cheque, rfl, hlock, heq⟩ := unlockCheque_of_lockedBy hlocked
    obtain rfl : cheque = locked := h
    rw [heq]
    refine ⟨?_, rfl⟩
    have hbody : ({ cheque.body with latch := Lock.ofSecret crypto secret } : ChequeBody Lock) =
        { cheque.body with latch := cheque.body.lock } := by rw [hlock]
    exact hbody

/-- Every cheque after a call stands for the one that the call brings, or for one that was there
before. -/
lemma signed_run (hrun : call.run crypto self = .ok self') (hc : c ∈ self'.cheques) :
    (∃ locked ∈ call.brought, c = .locked locked) ∨
      ∃ c' ∈ self.cheques, ∀ locked, StandsFor crypto locked c' → StandsFor crypto locked c := by
  cases call with
  | locked locked =>
    obtain ⟨-, rfl⟩ := applyLocked_eq_ok.mp hrun
    rcases List.mem_append.mp hc with hc | hc
    · exact Or.inr ⟨c, hc, fun _ => id⟩
    · exact Or.inl ⟨locked, rfl, List.mem_singleton.mp hc⟩
  | secret secret =>
    obtain ⟨-, rfl⟩ := applySecret_eq_ok.mp hrun
    obtain ⟨c', hc', rfl⟩ := List.mem_map.mp hc
    exact Or.inr ⟨c', hc', fun _ h => h.unlockCheque⟩
  | timeout now =>
    obtain rfl := Except.ok.inj hrun
    exact Or.inr ⟨c, (List.mem_filter.mp hc).1, fun _ => id⟩
  | replace newLocked =>
    obtain ⟨before, after, old, hsplit, -, -, -, -, -, rfl⟩ := applyReplace_eq_ok.mp hrun
    rw [hsplit]
    rcases List.mem_append.mp hc with hc | hc
    · exact Or.inr ⟨c, by simp [hc], fun _ => id⟩
    · rcases List.mem_cons.mp hc with rfl | hc
      · exact Or.inl ⟨newLocked, rfl, rfl⟩
      · exact Or.inr ⟨c, by simp [hc], fun _ => id⟩
  | squash squash =>
    obtain ⟨-, rfl⟩ := applySquash_eq_ok.mp hrun
    exact Or.inr ⟨c, (List.mem_filter.mp hc).1, fun _ => id⟩

lemma after_cases (crypto : Crypto) (self : Receipt) (call : Call) :
    call.run crypto self = .ok (call.after crypto self) ∨ call.after crypto self = self := by
  rw [Call.after]
  cases call.run crypto self with
  | ok self' => exact Or.inl rfl
  | error e => exact Or.inr rfl

/-- What holds of a receipt still holds after one more call. -/
lemma Kept.step (h : Kept crypto calls self) (hstep : call.Step crypto self self') :
    Kept crypto (calls ++ [call]) self' := by
  obtain ⟨hexact, rfl⟩ := hstep
  have hold : ∀ c, (∃ locked ∈ calls.filterMap Call.brought, StandsFor crypto locked c) →
      ∃ locked ∈ (calls ++ [call]).filterMap Call.brought, StandsFor crypto locked c := by
    rintro c ⟨locked, hlocked, hc⟩
    exact ⟨locked, by rw [List.filterMap_append]; exact List.mem_append_left _ hlocked, hc⟩
  rcases after_cases crypto self call with hrun | hsame
  · refine ⟨h.toTidy.run hexact hrun, fun c hc => ?_⟩
    rcases signed_run hrun hc with ⟨locked, hlocked, rfl⟩ | ⟨c', hc', hfor⟩
    · refine ⟨locked, ?_, rfl⟩
      rw [List.filterMap_append, List.mem_append]
      exact Or.inr (List.mem_filterMap.mpr ⟨call, List.mem_singleton_self _, hlocked⟩)
    · obtain ⟨locked, hlocked, hfor'⟩ := h.signed c' hc'
      exact hold c ⟨locked, hlocked, hfor locked hfor'⟩
  · rw [hsame]
    exact ⟨h.toTidy, fun c hc => hold c (h.signed c hc)⟩

/-! ### Amounts -/

/-- What a cheque adds to what is owed. -/
def worth (cheque : Cheque .verified) : ℕ := (cheque.asUnlocked.map fun u => u.amount.toNat).getD 0

lemma exactOwed_eq (self : Receipt) :
    self.exactOwed = self.squash.amount.toNat + (self.cheques.map worth).sum := by
  have hsum : ∀ cheques : List (Cheque .verified),
      ((cheques.filterMap Cheque.asUnlocked).map fun u => u.amount.toNat).sum =
        (cheques.map worth).sum := by
    intro cheques
    induction cheques with
    | nil => rfl
    | cons c cheques ih =>
      cases c with
      | unlocked u =>
        have hcons : (Cheque.unlocked u :: cheques).filterMap Cheque.asUnlocked =
            u :: cheques.filterMap Cheque.asUnlocked := rfl
        rw [hcons, List.map_cons, List.sum_cons, ih]
        rfl
      | locked l =>
        rw [List.filterMap_cons_none rfl, ih, List.map_cons, List.sum_cons]
        exact (Nat.zero_add _).symm
  rw [exactOwed, unlockeds, hsum]

lemma worth_le (cheque : Cheque .verified) : worth cheque ≤ cheque.amount.toNat := by
  cases cheque with
  | unlocked cheque => exact le_rfl
  | locked cheque => exact Nat.zero_le _

lemma worth_le_unlockCheque (cheque : Cheque .verified) :
    worth cheque ≤ worth (unlockCheque crypto secret cheque) := by
  cases hlocked : lockedBy crypto secret cheque with
  | false => rw [unlockCheque_of_not_lockedBy hlocked]
  | true =>
    obtain ⟨locked, rfl, -⟩ := unlockCheque_of_lockedBy hlocked
    exact Nat.zero_le _

/-- Cheques that are kept and cheques that are dropped make up all of them. -/
lemma sum_filter_add (f : Cheque .verified → ℕ) (p : Cheque .verified → Bool)
    (cheques : List (Cheque .verified)) :
    ((cheques.filter p).map f).sum + ((cheques.filter fun c => !p c).map f).sum =
      (cheques.map f).sum := by
  rw [← List.sum_append, ← List.map_append]
  exact ((List.filter_append_perm p cheques).map f).sum_eq

lemma exactOwed_applyTimeout : (self.applyTimeout now).exactOwed = self.exactOwed := by
  rw [exactOwed_eq, exactOwed_eq, applyTimeout,
    ← sum_filter_add worth (fun c => c.asLocked.all fun l => l.timeout > now) self.cheques]
  have hzero : ((self.cheques.filter fun c =>
      !c.asLocked.all fun l => l.timeout > now).map worth).sum = 0 := by
    refine List.sum_eq_zero fun n hn => ?_
    obtain ⟨c, hc, rfl⟩ := List.mem_map.mp hn
    -- what is dropped is locked
    cases c with
    | unlocked cheque => simp [Cheque.asLocked] at hc
    | locked cheque => rfl
  rw [hzero, Nat.add_zero]

lemma exactOwed_applyReplace (happly : self.applyReplace newLocked = .ok self') :
    self'.exactOwed = self.exactOwed := by
  obtain ⟨before, after, old, hsplit, -, -, -, -, -, rfl⟩ := applyReplace_eq_ok.mp happly
  rw [exactOwed_eq, exactOwed_eq, hsplit]
  simp [worth, Cheque.asUnlocked]

/-- A squash pays for the cheques that it squashes. -/
lemma le_of_applySquash (hexact : (Call.squash squash).Exact self)
    (happly : self.applySquash squash = .ok self') :
    self.exactOwed ≤ self'.exactOwed ∧ self.exactCommitted ≤ self'.exactCommitted := by
  obtain ⟨hpaid, rfl⟩ := applySquash_eq_ok.mp happly
  have hpaid := not_lt.mp (mt hexact.mpr hpaid)
  have hworth := List.sum_le_sum fun c (_ : c ∈ self.cheques.filter fun c =>
    squash.isIndexSquashed c.index) => worth_le c
  rw [exactOwed_eq, exactOwed_eq, exactCommitted, exactCommitted,
    ← sum_filter_add worth (fun c => squash.isIndexSquashed c.index) self.cheques,
    ← sum_filter_add (fun c => c.amount.toNat) (fun c => squash.isIndexSquashed c.index)
      self.cheques]
  dsimp only
  constructor
  · omega
  · omega

/-- What a call that goes through does to the amounts. -/
lemma keeps_run (hexact : call.Exact self) (hrun : call.run crypto self = .ok self') :
    call.Keeps self self' := by
  cases call with
  | locked locked =>
    obtain ⟨-, rfl⟩ := applyLocked_eq_ok.mp hrun
    show exactOwed _ = exactOwed _
    rw [exactOwed_eq, exactOwed_eq]
    simp [worth, Cheque.asUnlocked]
  | secret secret =>
    obtain ⟨-, rfl⟩ := applySecret_eq_ok.mp hrun
    show exactOwed _ ≤ exactOwed _
    rw [exactOwed_eq, exactOwed_eq, List.map_map]
    exact Nat.add_le_add_left (List.sum_le_sum fun c _ => worth_le_unlockCheque c) _
  | timeout now =>
    obtain rfl := Except.ok.inj hrun
    exact exactOwed_applyTimeout
  | replace newLocked => exact exactOwed_applyReplace hrun
  | squash squash => exact le_of_applySquash hexact hrun

lemma keeps_self (call : Call) (self : Receipt) : call.Keeps self self := by
  cases call with
  | locked _ | timeout _ | replace _ => exact rfl
  | secret _ => exact le_rfl
  | squash _ => exact ⟨le_rfl, le_rfl⟩

/-- **The receipt over its runs.**  After any calls in exact arithmetic, starting from a squash
without cheques, the cheques are in order, none is squashed, and each stands for one that was
brought; and the next call, whichever it is and whether or not it fails, keeps what is owed. -/
theorem receipt_kept (squash : Squash .verified)
    (hrun : Trace (fun self call self' => Call.Step crypto self call self') (new squash) calls
      self) :
    Kept crypto calls self ∧
      ∀ call self', Call.Step crypto self call self' → call.Keeps self self' := by
  refine ⟨?_, fun call self' hstep => ?_⟩
  · refine Trace.invariant ?_ (fun _ hkept hstep => hkept.step hstep) hrun
    exact ⟨⟨List.Pairwise.nil, by simp [new]⟩, by simp [new]⟩
  · obtain ⟨hexact, rfl⟩ := hstep
    rcases after_cases crypto self call with hok | hsame
    · exact keeps_run hexact hok
    · rw [hsame]
      exact keeps_self call self

end Runs

/-- A cheque behind the lock of 32 zero bytes. -/
def zeroCheque : Locked .verified :=
  ⟨⟨1, 5, Duration.fromMillis 90, ⟨Crypto.zeroLock⟩⟩, ⟨BytesN.fill 64 0⟩⟩

/-- The null squash. -/
def zeroSquash : Squash .verified := ⟨SquashBody.zero, ⟨BytesN.fill 64 0⟩⟩

/-- A cheque that is taken and unlocked. -/
theorem receipt_kept_of_unlocked :
    Kept Crypto.noCrypto [.locked zeroCheque, .secret ⟨BytesN.fill 32 0⟩]
      (Call.after Crypto.noCrypto
        (Call.after Crypto.noCrypto (new zeroSquash) (.locked zeroCheque))
        (.secret ⟨BytesN.fill 32 0⟩)) := by
  have hlocked : (Call.locked zeroCheque).Exact (new zeroSquash) := by
    unfold Call.Exact
    decide
  have hsecret : ∀ self, (Call.secret ⟨BytesN.fill 32 0⟩).Exact self := fun _ => trivial
  exact (receipt_kept zeroSquash (.snoc (.snoc .nil ⟨hlocked, rfl⟩) ⟨hsecret _, rfl⟩)).1

end Receipt

end Konduit.Tmp
