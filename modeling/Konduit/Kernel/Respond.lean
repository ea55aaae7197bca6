import Mathlib.Data.List.TakeWhile
import Mathlib.Tactic.Linarith
import Konduit.Kernel.Common

/-!
# The respond step

The adaptor answers a close with all its evidence: a squash, unlocked cheques, which it
is paid for, and locked cheques, which become pending.  The useds of the datum are counted
on the way, each when the first cheque at or above its index is reached.
-/

open Lib

namespace Konduit.Kernel

namespace Cheque

/-- What was signed of a cheque. -/
def body : Cheque → ChequeBody
  | unlockedCheque body _ | lockedCheque body _ => body

/-- The index of a cheque. -/
def index (cheque : Cheque) : Index := cheque.body.index

@[simp] lemma index_unlockedCheque (body : ChequeBody) (signature : Signature) :
    (unlockedCheque body signature).index = body.index := rfl

@[simp] lemma index_lockedCheque (body : ChequeBody) (signature : Signature) :
    (lockedCheque body signature).index = body.index := rfl

end Cheque

namespace Respond

/-- What the fold over the cheques carries. -/
structure Acc where
  owed : Amount
  useds : List Used
  index : Index
  exclude : Exclude
  pTotal : Amount
  pendings : List Pending
deriving DecidableEq

/-- Where the accumulator is, as a cursor over the indexes. -/
def Acc.cursor (acc : Acc) : Cursor Index := ⟨acc.index, acc.exclude⟩

/-- Count the useds up to an index. -/
def reduceUseds (self : List Used) (ub : Index) (total : Amount) (lb : Index)
    (exclude : Exclude) : Option (Amount × List Used × Index × Exclude) :=
  match self with
  | [] => some (total, [], lb, exclude)
  | x :: tail =>
    if x.index > ub then some (total, x :: tail, lb, exclude)
    else do
      let (lb, exclude) ← nextIndex lb exclude x.index
      reduceUseds tail ub (total + x.amount) lb exclude

section Account

variable (crypto : Crypto) (before : Timestamp → Option Bool)
  (wellsigned : ChequeBody → Signature → Bool)

/-- Account for one cheque. -/
def with_ (acc : Acc) : Cheque → Option Acc
  | .unlockedCheque body signature => do
    let (newIndex, amount, timeout) ← unlocked wellsigned crypto body signature
    let (owed, useds, index, exclude) ←
      reduceUseds acc.useds newIndex acc.owed acc.index acc.exclude
    let (index, exclude) ← nextIndex index exclude newIndex
    let inTime ← before timeout
    expect (inTime = true)
    return { acc with owed := owed + amount, useds, index, exclude }
  | .lockedCheque body signature => do
    expect (wellsigned body signature)
    let (owed, useds, index, exclude) ←
      reduceUseds acc.useds body.index acc.owed acc.index acc.exclude
    let (index, exclude) ← nextIndex index exclude body.index
    match acc.pendings with
    | [] => none
    | fst :: pendings => do
      expect (fst = ⟨body.amount, body.timeout, body.latch⟩)
      return { owed, useds, index, exclude, pTotal := acc.pTotal - body.amount, pendings }

end Account

/-- The bound on the time at which an unlocked cheque can be used. -/
def before (upperBound : Timebound) (timeout : Timestamp) : Option Bool := do
  let upperBound ← upperBound.finite?
  return upperBound ≤ timeout

/-- The amount that the squash, the useds and the unlocked cheques are evidence for; the
locked cheques must be the pendings, and their amounts add up to `pTotal`. -/
def account (crypto : Crypto) (upperBound : Timebound) (key : VerificationKey) (tag : Tag)
    (useds : List Used) (squash : Squash) (cheques : List Cheque) (pTotal : Amount)
    (pendings : List Pending) : Option Amount := do
  expect (wellsigned crypto key tag squash.body squash.signature)
  let acc ← cheques.foldlM (with_ crypto (before upperBound) (wellsigned crypto key tag))
    ⟨squash.body.amount, useds, squash.body.index, squash.body.exclude, pTotal, pendings⟩
  expect (acc.pTotal = 0)
  expect (acc.pendings = [])
  return acc.owed

end Respond

/-- The adaptor responds to a close with a squash and cheques, of which the locked ones go on
pending. -/
def Respond.do (crypto : Crypto) (upperBound : Timebound) (constants : Constants)
    (valueIn : Value) (stageIn : Stage) (valueOut : Value) (stageOut : Stage)
    (squash : Squash) (cheques : List Cheque) : Option VerificationKey :=
  match stageIn, stageOut with
  | .closed subbedIn usedsIn _, .responded pendsAmount pends => do
    let out ← amountOut valueOut
    let subbedOut := subbedIn - amountIn valueIn + out
    let owed ← Respond.account crypto upperBound constants.addVkey constants.tag usedsIn squash
      cheques pendsAmount pends
    expect (owed ≥ subbedOut)
    return constants.subVkey
  | _, _ => none

namespace Respond

variable {crypto : Crypto} {upperBound : Timebound} {key : VerificationKey} {tag : Tag}

/-! ### Counting useds -/

/-- The useds up to an index, in the order of a sorted list. -/
def upTo (useds : List Used) (i : Index) : List Used := useds.takeWhile (·.index ≤ i)

/-- The useds from the first one above an index. -/
def beyond (useds : List Used) (i : Index) : List Used := useds.dropWhile (·.index ≤ i)

/-- Counting useds moves the cursor through the useds up to the bound. -/
lemma reduceUseds_eq (self : List Used) (ub : Index) (total : Amount) (lb : Index)
    (exclude : Exclude) :
    reduceUseds self ub total lb exclude =
      ((Cursor.mk lb exclude).advanceAll ((upTo self ub).map Used.index)).map fun c =>
        (total + usedsAmount (upTo self ub), beyond self ub, c.bound, c.skips) := by
  induction self generalizing total lb exclude with
  | nil => simp [reduceUseds, upTo, beyond]
  | cons x tail ih =>
    by_cases h : x.index ≤ ub
    · have hupTo : upTo (x :: tail) ub = x :: upTo tail ub := by simp [upTo, h]
      have hbeyond : beyond (x :: tail) ub = beyond tail ub := by simp [beyond, h]
      rw [reduceUseds, if_neg (not_lt.mpr h), nextIndex_eq, hupTo, hbeyond, List.map_cons,
        Cursor.advanceAll_cons, usedsAmount_cons]
      cases (Cursor.mk lb exclude).advance x.index with
      | none => rfl
      | some c => simp [ih, add_assoc]
    · simp [reduceUseds, upTo, beyond, lt_of_not_ge h, h]

/-! ### What one cheque does -/

/-- A cheque that the step may use: an unlocked one is proven, a locked one is signed. -/
def Usable (crypto : Crypto) (upperBound : Timebound) (key : VerificationKey) (tag : Tag) :
    Cheque → Prop
  | .unlockedCheque body signature =>
    Unlocked.Proven ⟨body, signature⟩ crypto upperBound key tag
  | .lockedCheque body signature => wellsigned crypto key tag body signature = true

/-- The pendings that the locked cheques leave in the datum. -/
def pendingsOf : List Cheque → List Pending
  | [] => []
  | .unlockedCheque _ _ :: cheques => pendingsOf cheques
  | .lockedCheque body _ :: cheques => ⟨body.amount, body.timeout, body.latch⟩ :: pendingsOf cheques

/-- The sum of the amounts of the unlocked cheques. -/
def unlockedAmount : List Cheque → Amount
  | [] => 0
  | .unlockedCheque body _ :: cheques => body.amount + unlockedAmount cheques
  | .lockedCheque _ _ :: cheques => unlockedAmount cheques

/-- The useds counted on the way through the cheques. -/
def taken (useds : List Used) : List Cheque → List Used
  | [] => []
  | cheque :: cheques =>
    upTo useds cheque.index ++ taken (beyond useds cheque.index) cheques

/-- The useds that are left after the last cheque. -/
def left (useds : List Used) : List Cheque → List Used
  | [] => useds
  | cheque :: cheques => left (beyond useds cheque.index) cheques

/-- The indexes that the cursor moves through, useds and cheques together. -/
def visits (useds : List Used) : List Cheque → List Index
  | [] => []
  | cheque :: cheques =>
    (upTo useds cheque.index).map Used.index ++
      cheque.index :: visits (beyond useds cheque.index) cheques

/-- A usable cheque whose pending, if it is locked, comes next is accounted for when the
cursor moves through the useds up to it and then to the cheque. -/
lemma with_eq {acc : Acc} {cheque : Cheque} {rest : List Pending}
    (hcheque : Usable crypto upperBound key tag cheque)
    (hpend : acc.pendings = pendingsOf [cheque] ++ rest) :
    with_ crypto (before upperBound) (wellsigned crypto key tag) acc cheque =
      (acc.cursor.advanceAll (visits acc.useds [cheque])).map fun c =>
        ⟨acc.owed + usedsAmount (taken acc.useds [cheque]) + unlockedAmount [cheque],
          left acc.useds [cheque], c.bound, c.skips,
          acc.pTotal - pendsAmount (pendingsOf [cheque]), rest⟩ := by
  have hvisits : acc.cursor.advanceAll (visits acc.useds [cheque]) =
      (acc.cursor.advanceAll ((upTo acc.useds cheque.index).map Used.index)).bind
        fun c => c.advance cheque.index := by
    simp [visits, Cursor.advanceAll_append]
  -- the useds up to the cheque, then the cheque itself; either move may fail
  rw [hvisits]
  cases cheque with
  | unlockedCheque body signature =>
    obtain ⟨hsigned, hlength, t, rfl, htime⟩ := hcheque
    have hunlocked : unlocked (wellsigned crypto key tag) crypto body signature =
        some (body.index, body.amount, body.timeout) :=
      unlocked_eq_some.mpr ⟨⟨hsigned, hlength⟩, rfl⟩
    have hbefore : before (.finite t) body.timeout = some true := by
      simp [before, Timebound.finite?, htime]
    simp only [with_, hunlocked, Option.bind_eq_bind, Option.bind_some, Acc.cursor,
      Cheque.index_unlockedCheque]
    simp only [reduceUseds_eq, nextIndex_eq]
    rcases hc : (Cursor.mk acc.index acc.exclude).advanceAll
      ((upTo acc.useds body.index).map Used.index) with _ | c
    · rfl
    rcases hadv : c.advance body.index with _ | c'
    · simp [hadv]
    · simp only [Option.map_some, Option.bind_some, hadv, hbefore, expect_of]
      rw [show acc.pendings = rest from hpend]
      simp [taken, left, unlockedAmount, pendingsOf]
  | lockedCheque body signature =>
    simp only [with_, expect_of (show wellsigned crypto key tag body signature = true from hcheque),
      reduceUseds_eq, nextIndex_eq, hpend, Option.bind_eq_bind, Option.bind_some, Acc.cursor,
      Cheque.index_lockedCheque]
    rcases hc : (Cursor.mk acc.index acc.exclude).advanceAll
      ((upTo acc.useds body.index).map Used.index) with _ | c
    · rfl
    rcases hadv : c.advance body.index with _ | c'
    · simp [hadv]
    · simp [hadv, expect_of, taken, left, unlockedAmount, pendingsOf]

/-! ### What all cheques do -/

variable {useds : List Used} {cheques : List Cheque}

/-- The fold over usable cheques whose pendings come first: it succeeds exactly when the
cursor moves through all the useds and cheques that it meets. -/
lemma foldlM_with_eq {acc : Acc} {rest : List Pending}
    (hcheques : ∀ cheque ∈ cheques, Usable crypto upperBound key tag cheque)
    (hpend : acc.pendings = pendingsOf cheques ++ rest) :
    cheques.foldlM (with_ crypto (before upperBound) (wellsigned crypto key tag)) acc =
      (acc.cursor.advanceAll (visits acc.useds cheques)).map fun c =>
        ⟨acc.owed + usedsAmount (taken acc.useds cheques) + unlockedAmount cheques,
          left acc.useds cheques, c.bound, c.skips,
          acc.pTotal - pendsAmount (pendingsOf cheques), rest⟩ := by
  induction cheques generalizing acc with
  | nil =>
    obtain ⟨owed, useds, index, exclude, pTotal, pendings⟩ := acc
    obtain rfl : pendings = rest := hpend
    simp [visits, taken, left, unlockedAmount, pendingsOf, Acc.cursor]
  | cons cheque cheques ih =>
    have hsplit : pendingsOf (cheque :: cheques) = pendingsOf [cheque] ++ pendingsOf cheques := by
      cases cheque <;> rfl
    have hunlocked :
        unlockedAmount (cheque :: cheques) = unlockedAmount [cheque] + unlockedAmount cheques := by
      cases cheque <;> simp [unlockedAmount]
    have hvisits : visits acc.useds (cheque :: cheques) =
        visits acc.useds [cheque] ++ visits (left acc.useds [cheque]) cheques := by
      simp [visits, left]
    rw [hsplit, List.append_assoc] at hpend
    rw [List.foldlM_cons, with_eq (hcheques cheque (by simp)) hpend, hvisits,
      Cursor.advanceAll_append]
    rcases acc.cursor.advanceAll (visits acc.useds [cheque]) with _ | c
    · rfl
    · -- the induction goes on from where the head leaves the cursor
      have htail := fun acc => @ih acc fun c hc => hcheques c (by simp [hc])
      rw [Option.map_some, Option.bind_eq_bind, Option.bind_some, htail _ rfl]
      simp [Acc.cursor, taken, left, hsplit, hunlocked, pendsAmount, add_assoc, sub_sub,
        add_left_comm]

/-- The account of a signed squash and usable cheques, when the pendings are those of the
locked cheques. -/
theorem account_eq {squash : Squash} {pTotal : Amount} {pendings : List Pending}
    (hsquash : wellsigned crypto key tag squash.body squash.signature = true)
    (hcheques : ∀ cheque ∈ cheques, Usable crypto upperBound key tag cheque)
    (hpend : pendings = pendingsOf cheques) (htotal : pTotal = pendsAmount pendings) :
    account crypto upperBound key tag useds squash cheques pTotal pendings =
      (squash.body.cursor.advanceAll (visits useds cheques)).map fun _ =>
        squash.body.amount + usedsAmount (taken useds cheques) + unlockedAmount cheques := by
  subst hpend htotal
  simp only [account, expect_of hsquash, Option.bind_eq_bind, Option.bind_some]
  rw [foldlM_with_eq hcheques (List.append_nil _).symm]
  simp only [Acc.cursor]
  rw [show (⟨squash.body.index, squash.body.exclude⟩ : Cursor Index) = squash.body.cursor from rfl]
  rcases squash.body.cursor.advanceAll (visits useds cheques) with _ | c
  · rfl
  · simp [expect_of]

/-! ### What an account says about the evidence -/

/-- A cheque that was accounted for is usable, and its pending came next. -/
lemma with_some {acc acc' : Acc} {cheque : Cheque}
    (h : with_ crypto (before upperBound) (wellsigned crypto key tag) acc cheque = some acc') :
    Usable crypto upperBound key tag cheque ∧
      acc.pendings = pendingsOf [cheque] ++ acc'.pendings := by
  cases cheque with
  | unlockedCheque body signature =>
    simp only [with_, Option.bind_eq_bind, Option.bind_eq_some_iff, unlocked_eq_some,
      expect_eq_some, Option.pure_def, Option.some.injEq] at h
    obtain ⟨-, ⟨⟨hsigned, hlength⟩, rfl⟩, reduced, -, next, -, inTime, hbefore, -, htime, rfl⟩ := h
    rw [htime] at hbefore
    simp only [before, Option.bind_eq_bind, Option.bind_eq_some_iff,
      Timebound.finite?_eq_some, Option.pure_def, Option.some.injEq, decide_eq_true_eq] at hbefore
    exact ⟨⟨hsigned, hlength, hbefore⟩, rfl⟩
  | lockedCheque body signature =>
    simp only [with_, Option.bind_eq_bind, Option.bind_eq_some_iff, expect_eq_some] at h
    obtain ⟨-, hsigned, reduced, -, next, -, h⟩ := h
    refine ⟨hsigned, ?_⟩
    rcases hpend : acc.pendings with _ | ⟨fst, pendings⟩
    · simp [hpend] at h
    · simp only [hpend, Option.bind_eq_some_iff, expect_eq_some, Option.pure_def,
        Option.some.injEq] at h
      obtain ⟨-, rfl, rfl⟩ := h
      rfl

lemma foldlM_with_some {acc acc' : Acc}
    (h : cheques.foldlM (with_ crypto (before upperBound) (wellsigned crypto key tag)) acc =
      some acc') :
    (∀ cheque ∈ cheques, Usable crypto upperBound key tag cheque) ∧
      acc.pendings = pendingsOf cheques ++ acc'.pendings := by
  induction cheques generalizing acc with
  | nil =>
    obtain rfl := Option.some.inj h
    exact ⟨by simp, rfl⟩
  | cons cheque cheques ih =>
    rw [List.foldlM_cons] at h
    obtain ⟨acc₁, h₁, h₂⟩ := Option.bind_eq_some_iff.mp h
    obtain ⟨husable, hpend⟩ := with_some h₁
    obtain ⟨husables, hpends⟩ := ih h₂
    refine ⟨List.forall_mem_cons.mpr ⟨husable, husables⟩, ?_⟩
    rw [hpend, hpends, ← List.append_assoc]
    congr 1
    cases cheque <;> rfl

/-- An account succeeds exactly on a signed squash and usable cheques, with the pendings of
the locked ones and their total, when the cursor moves through all that it meets. -/
theorem account_eq_some {squash : Squash} {pTotal : Amount} {pendings : List Pending}
    {owed : Amount} :
    account crypto upperBound key tag useds squash cheques pTotal pendings = some owed ↔
      (wellsigned crypto key tag squash.body squash.signature = true ∧
        ∀ cheque ∈ cheques, Usable crypto upperBound key tag cheque) ∧
        (pendings = pendingsOf cheques ∧ pTotal = pendsAmount pendings) ∧
        (∃ c, squash.body.cursor.advanceAll (visits useds cheques) = some c) ∧
        owed = squash.body.amount + usedsAmount (taken useds cheques) + unlockedAmount cheques := by
  constructor
  · intro h
    have hinv := h
    simp only [account, Option.bind_eq_bind, Option.bind_eq_some_iff, expect_eq_some,
      Option.pure_def, Option.some.injEq] at hinv
    obtain ⟨-, hsigned, acc, hfold, -, hzero, -, hnil, -⟩ := hinv
    obtain ⟨husable, hpend⟩ := foldlM_with_some hfold
    rw [hnil, List.append_nil] at hpend
    have htotal : pTotal = pendsAmount pendings := by
      rw [foldlM_with_eq husable (hpend.trans (List.append_nil _).symm)] at hfold
      obtain ⟨c, -, rfl⟩ := Option.map_eq_some_iff.mp hfold
      change pendings = pendingsOf cheques at hpend
      rw [hpend]
      exact sub_eq_zero.mp hzero
    rw [account_eq hsigned husable hpend htotal] at h
    obtain ⟨c, hc, rfl⟩ := Option.map_eq_some_iff.mp h
    exact ⟨⟨hsigned, husable⟩, ⟨hpend, htotal⟩, ⟨c, hc⟩, rfl⟩
  · rintro ⟨⟨hsigned, husable⟩, ⟨hpend, htotal⟩, ⟨c, hc⟩, rfl⟩
    rw [account_eq hsigned husable hpend htotal, hc, Option.map_some]

/-! ### Sorted evidence -/

/-- A used is reached when the cheques go at least as far. -/
def Reached (cheques : List Cheque) (used : Used) : Prop :=
  ∃ cheque ∈ cheques, used.index ≤ cheque.index

instance (cheques : List Cheque) (used : Used) : Decidable (Reached cheques used) :=
  inferInstanceAs (Decidable (∃ cheque ∈ cheques, used.index ≤ cheque.index))

lemma upTo_append_beyond (useds : List Used) (i : Index) : upTo useds i ++ beyond useds i = useds :=
  List.takeWhile_append_dropWhile

lemma le_of_mem_upTo {u : Used} {i : Index} (h : u ∈ upTo useds i) : u.index ≤ i := by
  simpa using List.mem_takeWhile_imp h

lemma mem_of_mem_beyond {u : Used} {i : Index} (h : u ∈ beyond useds i) : u ∈ useds :=
  (List.dropWhile_suffix _).subset h

lemma sorted_beyond (h : useds.Pairwise (·.index < ·.index)) (i : Index) :
    (beyond useds i).Pairwise (·.index < ·.index) :=
  h.sublist (List.dropWhile_sublist _)

lemma lt_of_mem_beyond (h : useds.Pairwise (·.index < ·.index)) {u : Used} {i : Index}
    (hu : u ∈ beyond useds i) : i < u.index := by
  induction useds with
  | nil => simp [beyond] at hu
  | cons x tail ih =>
    obtain ⟨hx, htail⟩ := List.pairwise_cons.mp h
    by_cases hxi : x.index ≤ i
    · exact ih htail (by simpa [beyond, hxi] using hu)
    · have hu' : u = x ∨ u ∈ tail := by simpa [beyond, hxi] using hu
      rcases hu' with rfl | hu'
      · exact not_le.mp hxi
      · exact (not_le.mp hxi).trans (hx u hu')

lemma taken_append_left (useds : List Used) (cheques : List Cheque) :
    taken useds cheques ++ left useds cheques = useds := by
  induction cheques generalizing useds with
  | nil => rfl
  | cons cheque cheques ih => rw [taken, left, List.append_assoc, ih, upTo_append_beyond]

lemma reached_of_mem_taken {u : Used} (h : u ∈ taken useds cheques) : Reached cheques u := by
  induction cheques generalizing useds with
  | nil => simp [taken] at h
  | cons cheque cheques ih =>
    rcases List.mem_append.mp h with h | h
    · exact ⟨cheque, by simp, le_of_mem_upTo h⟩
    · obtain ⟨c, hc, hle⟩ := ih h
      exact ⟨c, by simp [hc], hle⟩

lemma not_reached_of_mem_left (hs : useds.Pairwise (·.index < ·.index)) {u : Used}
    (h : u ∈ left useds cheques) : ¬Reached cheques u := by
  induction cheques generalizing useds with
  | nil => simp [Reached]
  | cons cheque cheques ih =>
    have hbeyond : u ∈ beyond useds cheque.index := by
      rw [← taken_append_left (beyond useds cheque.index) cheques]
      exact List.mem_append_right _ h
    rintro ⟨c, hc, hle⟩
    rcases List.mem_cons.mp hc with rfl | hc
    · exact absurd hle (not_le.mpr (lt_of_mem_beyond hs hbeyond))
    · exact ih (sorted_beyond hs _) h ⟨c, hc, hle⟩

lemma mem_taken (hs : useds.Pairwise (·.index < ·.index)) {u : Used} :
    u ∈ taken useds cheques ↔ u ∈ useds ∧ Reached cheques u := by
  constructor
  · intro h
    refine ⟨?_, reached_of_mem_taken h⟩
    rw [← taken_append_left useds cheques]
    exact List.mem_append_left _ h
  · rintro ⟨hu, hreached⟩
    rw [← taken_append_left useds cheques] at hu
    rcases List.mem_append.mp hu with hu | hu
    · exact hu
    · exact absurd hreached (not_reached_of_mem_left hs hu)

lemma mem_visits {j : Index} :
    j ∈ visits useds cheques ↔
      (∃ u ∈ taken useds cheques, u.index = j) ∨ ∃ cheque ∈ cheques, cheque.index = j := by
  induction cheques generalizing useds with
  | nil => simp [visits, taken]
  | cons cheque cheques ih =>
    simp only [visits, taken, List.mem_append, List.mem_cons, List.mem_map, ih, or_and_right,
      exists_or, exists_eq_left]
    constructor
    · rintro (h | rfl | h | h)
      · exact Or.inl (Or.inl h)
      · exact Or.inr (Or.inl rfl)
      · exact Or.inl (Or.inr h)
      · exact Or.inr (Or.inr h)
    · rintro ((h | h) | rfl | h)
      · exact Or.inl h
      · exact Or.inr (Or.inr (Or.inl h))
      · exact Or.inr (Or.inl rfl)
      · exact Or.inr (Or.inr (Or.inr h))

/-- Sorted useds and sorted cheques at other indexes are visited in increasing order. -/
lemma sorted_visits (hs : useds.Pairwise (·.index < ·.index))
    (hcheques : cheques.Pairwise (·.index < ·.index))
    (hdisjoint : ∀ u ∈ useds, ∀ cheque ∈ cheques, u.index ≠ cheque.index) :
    (visits useds cheques).Pairwise (· < ·) := by
  induction cheques generalizing useds with
  | nil => simp [visits]
  | cons cheque cheques ih =>
    obtain ⟨hcheque, hcheques⟩ := List.pairwise_cons.mp hcheques
    have hlater : ∀ j ∈ visits (beyond useds cheque.index) cheques, cheque.index < j := by
      intro j hj
      rcases mem_visits.mp hj with ⟨u, hu, rfl⟩ | ⟨c, hc, rfl⟩
      · exact lt_of_mem_beyond hs ((mem_taken (sorted_beyond hs _)).mp hu).1
      · exact hcheque c hc
    have hearlier : ∀ j ∈ (upTo useds cheque.index).map Used.index, j < cheque.index := by
      intro j hj
      obtain ⟨u, hu, rfl⟩ := List.mem_map.mp hj
      have hmem : u ∈ useds := by
        rw [← upTo_append_beyond useds cheque.index]
        exact List.mem_append_left _ hu
      exact lt_of_le_of_ne (le_of_mem_upTo hu) (hdisjoint u hmem cheque (by simp))
    rw [visits, List.pairwise_append]
    -- the cheque stands between the useds before it and all that is visited later
    refine ⟨?_, List.pairwise_cons.mpr ⟨hlater, ?_⟩, ?_⟩
    · exact List.pairwise_map.mpr (hs.sublist (List.takeWhile_sublist _))
    · exact ih (sorted_beyond hs _) hcheques fun u hu c hc =>
        hdisjoint u (mem_of_mem_beyond hu) c (by simp [hc])
    · intro j hj k hk
      rcases List.mem_cons.mp hk with rfl | hk
      · exact hearlier j hj
      · exact (hearlier j hj).trans (hlater k hk)

/-! ### What the step lets the adaptor withdraw -/

/-- Whenever the step succeeds on these values and this closed channel, the amounts subbed
so far and withdrawn now are owed. -/
def NeverOverpays (crypto : Crypto) (valueIn valueOut : Value) (subbedIn : Amount)
    (usedsIn : List Used) (elapseAt : Timestamp) : Prop :=
  ∀ upperBound constants pAmount pends squash cheques vkey out owed,
    Respond.do crypto upperBound constants valueIn (.closed subbedIn usedsIn elapseAt) valueOut
      (.responded pAmount pends) squash cheques = some vkey →
    amountOut valueOut = some out →
    account crypto upperBound constants.addVkey constants.tag usedsIn squash cheques pAmount pends =
      some owed →
    subbedIn + (amountIn valueIn - out) ≤ owed

/-- The amount that the step compares with what is owed. -/
lemma do_some {constants : Constants} {valueIn valueOut : Value} {subbedIn : Amount}
    {usedsIn : List Used} {elapseAt : Timestamp} {pAmount : Amount} {pends : List Pending}
    {squash : Squash} {vkey : VerificationKey} :
    Respond.do crypto upperBound constants valueIn (.closed subbedIn usedsIn elapseAt) valueOut
        (.responded pAmount pends) squash cheques = some vkey ↔
      ∃ out owed, amountOut valueOut = some out ∧
        account crypto upperBound constants.addVkey constants.tag usedsIn squash cheques pAmount
          pends = some owed ∧
        subbedIn - amountIn valueIn + out ≤ owed ∧ vkey = constants.subVkey := by
  simp only [Respond.do, Option.bind_eq_bind, Option.bind_eq_some_iff, expect_eq_some,
    Option.pure_def, Option.some.injEq, ge_iff_le]
  constructor
  · rintro ⟨out, hout, owed, howed, -, hle, rfl⟩
    exact ⟨out, owed, hout, howed, hle, rfl⟩
  · rintro ⟨out, owed, hout, howed, hle, rfl⟩
    exact ⟨out, hout, owed, howed, (), hle, rfl⟩

/-- Respond takes a closed channel to a responded channel. -/
lemma stages_of_do {constants : Constants} {valueIn valueOut : Value} {stageIn stageOut : Stage}
    {squash : Squash} {vkey : VerificationKey}
    (h : Respond.do crypto upperBound constants valueIn stageIn valueOut stageOut squash cheques =
      some vkey) :
    ∃ subbed useds elapseAt pAmount pends, stageIn = .closed subbed useds elapseAt ∧
      stageOut = .responded pAmount pends := by
  cases stageIn with
  | closed subbed useds elapseAt =>
    cases stageOut with
    | responded pAmount pends => exact ⟨_, _, _, _, _, rfl, rfl⟩
    | opened | closed => exact absurd h (by simp [Respond.do])
  | opened | responded => exact absurd h (by simp [Respond.do])

/-- The squash of an amount alone. -/
def squashOf (crypto : Crypto) (sk : BytesN 32) (tag : Tag) (amount : Amount) : Squash :=
  let body : SquashBody := ⟨amount, 0, []⟩
  ⟨body, (crypto.sign sk (Plutus.serialise (.list [.bytes tag, ToData.toData body]))).1⟩

lemma account_squashOf (sk : BytesN 32) (amount : Amount) :
    account crypto upperBound (crypto.verificationKey sk).1 tag useds
      (squashOf crypto sk tag amount) [] 0 [] = some amount := by
  have hsigned : wellsigned crypto (crypto.verificationKey sk).1 tag
      (squashOf crypto sk tag amount).body (squashOf crypto sk tag amount).signature = true :=
    crypto.verify_sign sk _
  refine (account_eq hsigned (by simp) rfl rfl).trans ?_
  simp [visits, taken, unlockedAmount, squashOf]

/-- The step adds the withdrawn amount with the wrong sign, so that it keeps the adaptor
from overpaying itself only where it withdraws nothing. -/
theorem neverOverpays_iff (valueIn valueOut : Value) (subbedIn : Amount) (usedsIn : List Used)
    (elapseAt : Timestamp) :
    NeverOverpays crypto valueIn valueOut subbedIn usedsIn elapseAt ↔
      ∀ out, amountOut valueOut = some out → amountIn valueIn ≤ out := by
  constructor
  · intro h out hout
    -- a squash of exactly what the step compares
    let sk : BytesN 32 := BytesN.fill 32 0
    let owed := subbedIn - amountIn valueIn + out
    have haccount := @account_squashOf crypto .negativeInfinity [] usedsIn sk owed
    have hle := h .negativeInfinity ⟨[], (crypto.verificationKey sk).1, [], 0⟩ 0 []
      (squashOf crypto sk [] owed) [] _ out owed
      (do_some.mpr ⟨out, owed, hout, haccount, le_rfl, rfl⟩) hout haccount
    simp only [owed] at hle
    linarith
  · intro h upperBound constants pAmount pends squash cheques vkey out owed hdo hout howed
    obtain ⟨out', owed', hout', howed', hle, -⟩ := do_some.mp hdo
    obtain rfl : out = out' := Option.some.inj (hout.symm.trans hout')
    obtain rfl : owed = owed' := Option.some.inj (howed.symm.trans howed')
    have := h out hout
    linarith

/-- On a squash of nothing the adaptor may take 98 ada out of a channel that holds 100. -/
theorem overpays_on_null_squash :
    ¬NeverOverpays Crypto.noCrypto (ada 100_000_000) (ada 2_000_000) 0 [] 1_765_889_000_000 := by
  intro h
  have hle := h .positiveInfinity ⟨[], List.replicate 32 0, List.replicate 32 0, 86_400_000⟩ 0 []
    ⟨⟨0, 0, []⟩, List.replicate 64 0⟩ [] (List.replicate 32 0) 2_000_000 0
    (by decide) rfl (by decide)
  exact absurd hle (by decide)

end Respond

end Konduit.Kernel
