import Konduit.Kernel.Types
import Konduit.Lib.Cursor

/-!
# What the kernel's steps share

Reading lovelace off a value, the cursor that keeps evidence from being counted twice, and
the check of an unlocked cheque.
-/

open Lib

namespace Konduit.Kernel

/-! ### Values -/

/-- Quantities by policy and asset name; ada is at the empty names. -/
abbrev Value := List (Bytes × List (Bytes × ℤ))

/-- The lovelace of a value, whatever else it holds. -/
def lovelaceOf (value : Value) : ℤ :=
  ((value.lookup []).bind fun d => d.lookup []).getD 0

/-- The lovelace of a value that holds nothing else. -/
def onlyAda : Value → Option ℤ
  | [(_, [(_, amount)])] => some amount
  | _ => none

/-- The lovelace that a spent channel holds. -/
def amountIn (value : Value) : Amount := lovelaceOf value

/-- The lovelace that a continuing channel holds, which must hold nothing else. -/
def amountOut (value : Value) : Option Amount := onlyAda value

/-- The value of an output that holds lovelace only. -/
def ada (lovelace : ℤ) : Value := [([], [([], lovelace)])]

@[simp] lemma amountIn_ada (lovelace : ℤ) : amountIn (ada lovelace) = lovelace := rfl

@[simp] lemma amountOut_ada (lovelace : ℤ) : amountOut (ada lovelace) = some lovelace := rfl

/-! ### Lists -/

/-- The list from the first element that fails the predicate. -/
def dropUntil {α : Type*} (l : List α) (pred : α → Bool) : List α :=
  match l with
  | [] => []
  | fst :: rest => if pred fst then dropUntil rest pred else fst :: rest

lemma dropUntil_eq_dropWhile {α : Type*} (l : List α) (pred : α → Bool) :
    dropUntil l pred = l.dropWhile pred := by
  induction l with
  | nil => rfl
  | cons x l ih => cases h : pred x <;> simp [dropUntil, h, ih]

/-- The list after the first occurrence of an element; the script fails when there is
none. -/
def dropHard (l : List Index) (i : Index) : Option (List Index) :=
  match l with
  | [] => none
  | fst :: l => if fst = i then some l else dropHard l i

lemma dropHard_eq (l : List Index) (i : Index) : dropHard l i = Cursor.dropThrough l i := by
  induction l with
  | nil => rfl
  | cons x l ih => simp [dropHard, Cursor.dropThrough, ih]

/-! ### The cursor -/

/-- Account for an index: above the previous one it becomes the new bound, below it must
be excluded. -/
def nextIndex (prev : Index) (exclude : Exclude) (curr : Index) : Option (Index × Exclude) :=
  if prev < curr then some (curr, [])
  else do
    let exclude ← dropHard exclude curr
    return (prev, exclude)

/-- The indexes that a squash leaves open. -/
def SquashBody.cursor (body : SquashBody) : Cursor Index := ⟨body.index, body.exclude⟩

/-- A cheque is covered by a squash unless its index is above the squash's or excluded. -/
def SquashBody.Covers (body : SquashBody) (i : Index) : Prop := ¬body.cursor.Ahead i

lemma SquashBody.covers_iff {body : SquashBody} {i : Index} :
    body.Covers i ↔ i ≤ body.index ∧ i ∉ body.exclude := by
  simp [Covers, Cursor.Ahead, cursor]

instance (body : SquashBody) (i : Index) : Decidable (body.Covers i) :=
  decidable_of_iff _ SquashBody.covers_iff.symm

/-- The kernel's cursor is the library's. -/
lemma nextIndex_eq (prev : Index) (exclude : Exclude) (curr : Index) :
    nextIndex prev exclude curr =
      ((Cursor.mk prev exclude).advance curr).map fun c => (c.bound, c.skips) := by
  rw [nextIndex, Cursor.advance]
  by_cases h : prev < curr
  · simp [h]
  · rw [if_neg h, if_neg h, dropHard_eq]
    cases Cursor.dropThrough exclude curr <;> rfl

lemma nextIndex_eq_some {prev curr : Index} {exclude : Exclude} {r : Index × Exclude} :
    nextIndex prev exclude curr = some r ↔
      (Cursor.mk prev exclude).advance curr = some ⟨r.1, r.2⟩ := by
  rw [nextIndex_eq, Option.map_eq_some_iff]
  constructor
  · rintro ⟨c, hc, rfl⟩
    exact hc
  · exact fun h => ⟨_, h, rfl⟩

/-! ### Unlocked cheques -/

/-- The body that the consumer signed for an unlocked cheque. -/
def ChequeBody.locked (crypto : Crypto) (body : ChequeBody) : ChequeBody :=
  { body with latch := (crypto.sha256 body.latch).1 }

/-- An unlocked cheque is signed over the hash of its secret, and the secret is 32 bytes
long. -/
def unlocked (wellsigned : ChequeBody → Signature → Bool) (crypto : Crypto) (body : ChequeBody)
    (signature : Signature) : Option (Index × Amount × Timestamp) := do
  expect (wellsigned (body.locked crypto) signature)
  expect (body.latch.length = 32)
  return (body.index, body.amount, body.timeout)

lemma unlocked_eq_some {wellsigned : ChequeBody → Signature → Bool} {crypto : Crypto}
    {body : ChequeBody} {signature : Signature} {r : Index × Amount × Timestamp} :
    unlocked wellsigned crypto body signature = some r ↔
      (wellsigned (body.locked crypto) signature = true ∧ body.latch.length = 32) ∧
        r = (body.index, body.amount, body.timeout) := by
  simp only [unlocked, Option.bind_eq_bind, Option.bind_eq_some_iff, expect_eq_some,
    Option.pure_def, Option.some.injEq]
  constructor
  · rintro ⟨-, hs, -, hl, rfl⟩
    exact ⟨⟨hs, hl⟩, rfl⟩
  · rintro ⟨⟨hs, hl⟩, rfl⟩
    exact ⟨(), hs, (), hl, rfl⟩

namespace Unlocked

/-- The used that an unlocked cheque leaves in the datum. -/
def used (cheque : Unlocked) : Used := ⟨cheque.body.index, cheque.body.amount⟩

/-- An unlocked cheque that is evidence for its amount before the upper bound. -/
structure Proven (cheque : Unlocked) (crypto : Crypto) (upperBound : Timebound)
    (key : VerificationKey) (tag : Tag) : Prop where
  signed : wellsigned crypto key tag (cheque.body.locked crypto) cheque.signature = true
  length : cheque.body.latch.length = 32
  inTime : ∃ t, upperBound = .finite t ∧ t ≤ cheque.body.timeout

end Unlocked

/-! ### Sums -/

/-- The sum of the amounts of a list of useds. -/
def usedsAmount (useds : List Used) : Amount := (useds.map Used.amount).sum

@[simp] lemma usedsAmount_nil : usedsAmount [] = 0 := rfl

@[simp] lemma usedsAmount_cons (u : Used) (useds : List Used) :
    usedsAmount (u :: useds) = u.amount + usedsAmount useds := by
  simp [usedsAmount]

@[simp] lemma usedsAmount_append (useds useds' : List Used) :
    usedsAmount (useds ++ useds') = usedsAmount useds + usedsAmount useds' := by
  simp [usedsAmount]

/-- The sum of the amounts of a list of pendings. -/
def pendsAmount (pends : List Pending) : Amount := (pends.map Pending.amount).sum

@[simp] lemma pendsAmount_nil : pendsAmount [] = 0 := rfl

@[simp] lemma pendsAmount_cons (pend : Pending) (pends : List Pending) :
    pendsAmount (pend :: pends) = pend.amount + pendsAmount pends := by
  simp [pendsAmount]

end Konduit.Kernel
