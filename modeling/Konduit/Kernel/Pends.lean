import Mathlib.Tactic.Linarith
import Konduit.Kernel.Common

/-!
# The unlock and expire steps

Both steps walk through the pendings of the datum: an empty unpend continues the pending,
which must then come next in the continuing datum, and any other frees it.  They differ in
what frees a pending: its secret before its timeout, or its timeout.
-/

open Lib

namespace Konduit.Kernel

namespace Pends

/-- What the fold over the unpends carries. -/
structure Acc where
  total : Amount
  pendsIn : List Pending
  pendsOut : List Pending
deriving DecidableEq

/-- Continue or free the next pending. -/
def with_ (free : Unpend → Pending → Option Unit) (acc : Acc) : Unpend → Option Acc
  | [] =>
    match acc.pendsIn, acc.pendsOut with
    | fst :: pendsIn, fst' :: pendsOut => do
      expect (fst = fst')
      return { acc with pendsIn, pendsOut }
    | _, _ => none
  | unpend =>
    match acc.pendsIn with
    | fst :: pendsIn => do
      free unpend fst
      return { acc with total := acc.total + fst.amount, pendsIn }
    | [] => none

/-- The amount of the pendings that are freed; the others stay, in order. -/
def account (free : Unpend → Pending → Option Unit) (unpends : List Unpend)
    (pendsIn pendsOut : List Pending) : Option Amount := do
  let acc ← unpends.foldlM (with_ free) ⟨0, pendsIn, pendsOut⟩
  expect (acc.pendsIn = acc.pendsOut)
  return acc.total

end Pends

/-! ### Unlock -/

namespace Unlock

/-- A pending is freed by its secret before its timeout. -/
def free (crypto : Crypto) (upperBound : Timebound) (unpend : Unpend) (pend : Pending) :
    Option Unit := do
  expect ((crypto.sha256 unpend).1 = pend.lock)
  expect (unpend.length = 32)
  let upperBound ← upperBound.finite?
  expect (upperBound ≤ pend.timeout)

/-- Take one instruction, freeing pendings by their secrets. -/
def with_ (crypto : Crypto) (upperBound : Timebound) : Pends.Acc → Unpend → Option Pends.Acc :=
  Pends.with_ (free crypto upperBound)

/-- What the instructions free by secrets, where they leave the pendings that go on. -/
def account (crypto : Crypto) (upperBound : Timebound) (unpends : List Unpend)
    (pendsIn pendsOut : List Pending) : Option Amount :=
  Pends.account (free crypto upperBound) unpends pendsIn pendsOut

end Unlock

/-- The adaptor takes the pendings whose secrets it knows. -/
def Unlock.do (crypto : Crypto) (upperBound : Timebound) (constants : Constants)
    (valueIn : Value) (stageIn : Stage) (valueOut : Value) (stageOut : Stage)
    (unpends : List Unpend) : Option VerificationKey :=
  match stageIn, stageOut with
  | .responded pendsAmountIn pendsIn, .responded pendsAmountOut pendsOut => do
    let out ← amountOut valueOut
    let subbed := amountIn valueIn - out
    let amount ← Unlock.account crypto upperBound unpends pendsIn pendsOut
    expect (pendsAmountOut = pendsAmountIn - amount)
    expect (amount ≥ subbed)
    return constants.subVkey
  | _, _ => none

/-! ### Expire -/

namespace Expire

/-- The lovelace that a channel holds besides its funds. -/
def minAdaBuffer : Amount := 2_000_000

/-- A pending is freed by its timeout. -/
def free (lowerBound : Timebound) (_unpend : Unpend) (pend : Pending) : Option Unit := do
  let lowerBound ← lowerBound.finite?
  expect (pend.timeout ≤ lowerBound)

/-- Take one instruction, freeing pendings that have timed out. -/
def with_ (lowerBound : Timebound) : Pends.Acc → Unpend → Option Pends.Acc :=
  Pends.with_ (free lowerBound)

/-- What the instructions free of timed out pendings, where they leave the pendings that go on. -/
def account (lowerBound : Timebound) (unpends : List Unpend) (pendsIn pendsOut : List Pending) :
    Option Amount :=
  Pends.account (free lowerBound) unpends pendsIn pendsOut

end Expire

/-- The consumer takes the pendings that have timed out, and what is not pending. -/
def Expire.do (lowerBound : Timebound) (constants : Constants) (stageIn : Stage)
    (valueOut : Value) (stageOut : Stage) (unpends : List Unpend) : Option VerificationKey :=
  match stageIn, stageOut with
  | .responded pendsAmountIn pendsIn, .responded pendsAmountOut pendsOut => do
    let amount ← Expire.account lowerBound unpends pendsIn pendsOut
    expect (pendsAmountOut = pendsAmountIn - amount)
    let out ← amountOut valueOut
    expect (out ≥ pendsAmountOut + Expire.minAdaBuffer)
    return constants.addVkey
  | _, _ => none

/-! ### What an account adds up to -/

namespace Pends

/-- The pendings that stay. -/
def remaining : List Unpend → List Pending → List Pending
  | [], pends => pends
  | _ :: _, [] => []
  | [] :: unpends, pend :: pends => pend :: remaining unpends pends
  | (_ :: _) :: unpends, _ :: pends => remaining unpends pends

/-- The pendings that are freed, with what frees them. -/
def freed : List Unpend → List Pending → List (Unpend × Pending)
  | [], _ | _ :: _, [] => []
  | [] :: unpends, _ :: pends => freed unpends pends
  | (b :: bs) :: unpends, pend :: pends => (b :: bs, pend) :: freed unpends pends

/-- The amount of the pendings that are freed. -/
def freedAmount (unpends : List Unpend) (pends : List Pending) : Amount :=
  pendsAmount ((freed unpends pends).map Prod.snd)

variable {free : Unpend → Pending → Option Unit} {unpends : List Unpend}
  {pendsIn pendsOut : List Pending} {total amount : Amount}

lemma pendsAmount_remaining (unpends : List Unpend) (pends : List Pending) :
    pendsAmount (remaining unpends pends) + freedAmount unpends pends = pendsAmount pends := by
  induction unpends generalizing pends with
  | nil => simp [remaining, freedAmount, freed]
  | cons unpend unpends ih =>
    cases pends with
    | nil => cases unpend <;> simp [remaining, freedAmount, freed]
    | cons pend pends =>
      have := ih pends
      cases unpend <;>
        simp only [remaining, freedAmount, freed, List.map_cons, pendsAmount_cons] at * <;> linarith

lemma remaining_sublist (unpends : List Unpend) (pends : List Pending) :
    (remaining unpends pends).Sublist pends := by
  induction unpends generalizing pends with
  | nil => exact List.Sublist.refl pends
  | cons unpend unpends ih =>
    cases pends with
    | nil => cases unpend <;> exact List.Sublist.refl _
    | cons pend pends =>
      cases unpend with
      | nil => exact (ih pends).cons_cons pend
      | cons b bs => exact (ih pends).cons pend

/-- Every pending is either freed or stays. -/
lemma remaining_append_freed (unpends : List Unpend) (pends : List Pending)
    (h : unpends.length ≤ pends.length) :
    (remaining unpends pends ++ (freed unpends pends).map Prod.snd).Perm pends := by
  induction unpends generalizing pends with
  | nil =>
    have hfreed : freed [] pends = [] := by cases pends <;> rfl
    rw [remaining, hfreed, List.map_nil, List.append_nil]
  | cons unpend unpends ih =>
    cases pends with
    | nil => simp at h
    | cons pend pends =>
      have hrest := ih pends (Nat.le_of_succ_le_succ h)
      cases unpend with
      | nil => exact hrest.cons pend
      | cons b bs => exact List.perm_middle.trans (hrest.cons pend)

/-- A walk through the pendings meets its end when there are enough of them, everything it
frees may be freed, and the continuing pendings are those that remain. -/
lemma foldlM_with_iff :
    (∃ acc, unpends.foldlM (with_ free) ⟨total, pendsIn, pendsOut⟩ = some acc ∧
        acc.pendsIn = acc.pendsOut ∧ acc.total = amount) ↔
      unpends.length ≤ pendsIn.length ∧ (∀ x ∈ freed unpends pendsIn, free x.1 x.2 = some ()) ∧
        pendsOut = remaining unpends pendsIn ∧ amount = total + freedAmount unpends pendsIn := by
  induction unpends generalizing pendsIn pendsOut total with
  | nil => simp [freed, remaining, freedAmount, eq_comm]
  | cons unpend unpends ih =>
    rw [List.foldlM_cons]
    rcases unpend with _ | ⟨b, bs⟩
    · -- the pending is continued
      rcases pendsIn with _ | ⟨pend, pendsIn⟩
      · simp [with_]
      rcases pendsOut with _ | ⟨pend', pendsOut⟩
      · simp [with_, remaining]
      by_cases h : pend = pend'
      · subst h
        simp [with_, expect_of, ih, freed, remaining, freedAmount]
      · simp [with_, expect, h, remaining, Ne.symm h]
    · -- the pending is freed
      rcases pendsIn with _ | ⟨pend, pendsIn⟩
      · simp [with_]
      rcases h : free (b :: bs) pend with _ | u
      · simp [with_, h, freed]
      · simp [with_, h, ih, freed, remaining, freedAmount, add_assoc]

/-- What a step does to the pendings, in one go. -/
theorem account_eq_some :
    account free unpends pendsIn pendsOut = some amount ↔
      unpends.length ≤ pendsIn.length ∧ (∀ x ∈ freed unpends pendsIn, free x.1 x.2 = some ()) ∧
        pendsOut = remaining unpends pendsIn ∧ amount = freedAmount unpends pendsIn := by
  have h := @foldlM_with_iff free unpends pendsIn pendsOut 0 amount
  rw [zero_add] at h
  rw [← h]
  simp only [account, Option.bind_eq_bind, Option.bind_eq_some_iff, expect_eq_some,
    Option.pure_def, Option.some.injEq]
  constructor
  · rintro ⟨acc, hacc, -, heq, rfl⟩
    exact ⟨acc, hacc, heq, rfl⟩
  · rintro ⟨acc, hacc, heq, rfl⟩
    exact ⟨acc, hacc, (), heq, rfl⟩

end Pends

/-- What an accepted unlock amounts to. -/
theorem Unlock.do_eq_some {crypto : Crypto} {upperBound : Timebound} {constants : Constants}
    {valueIn valueOut : Value} {amountIn' amountOut' : Amount} {pendsIn pendsOut : List Pending}
    {unpends : List Unpend} {vkey : VerificationKey} :
    Unlock.do crypto upperBound constants valueIn (.responded amountIn' pendsIn) valueOut
        (.responded amountOut' pendsOut) unpends = some vkey ↔
      (∃ out, amountOut valueOut = some out ∧
        amountIn valueIn - out ≤ Pends.freedAmount unpends pendsIn) ∧
        unpends.length ≤ pendsIn.length ∧
        (∀ x ∈ Pends.freed unpends pendsIn, Unlock.free crypto upperBound x.1 x.2 = some ()) ∧
        pendsOut = Pends.remaining unpends pendsIn ∧
        amountOut' = amountIn' - Pends.freedAmount unpends pendsIn ∧ vkey = constants.subVkey := by
  simp only [Unlock.do, Unlock.account, Option.bind_eq_bind, Option.bind_eq_some_iff,
    Pends.account_eq_some, expect_eq_some, Option.pure_def, Option.some.injEq]
  constructor
  · rintro ⟨out, hout, amount, ⟨hlength, hfree, hpends, rfl⟩, -, hamount, -, hsubbed, rfl⟩
    exact ⟨⟨out, hout, hsubbed⟩, hlength, hfree, hpends, hamount, rfl⟩
  · rintro ⟨⟨out, hout, hsubbed⟩, hlength, hfree, hpends, hamount, rfl⟩
    exact ⟨out, hout, _, ⟨hlength, hfree, hpends, rfl⟩, (), hamount, (), hsubbed, rfl⟩

/-- Unlock takes a responded channel to a responded channel. -/
lemma Unlock.stages_of_do {crypto : Crypto} {upperBound : Timebound} {constants : Constants}
    {valueIn valueOut : Value} {stageIn stageOut : Stage} {unpends : List Unpend}
    {vkey : VerificationKey}
    (h : Unlock.do crypto upperBound constants valueIn stageIn valueOut stageOut unpends =
      some vkey) :
    ∃ amountIn' pendsIn amountOut' pendsOut, stageIn = .responded amountIn' pendsIn ∧
      stageOut = .responded amountOut' pendsOut := by
  cases stageIn with
  | responded amountIn' pendsIn =>
    cases stageOut with
    | responded amountOut' pendsOut => exact ⟨_, _, _, _, rfl, rfl⟩
    | opened | closed => exact absurd h (by simp [Unlock.do])
  | opened | closed => exact absurd h (by simp [Unlock.do])

/-- What an accepted expire amounts to. -/
theorem Expire.do_eq_some {lowerBound : Timebound} {constants : Constants} {valueOut : Value}
    {amountIn' amountOut' : Amount} {pendsIn pendsOut : List Pending} {unpends : List Unpend}
    {vkey : VerificationKey} :
    Expire.do lowerBound constants (.responded amountIn' pendsIn) valueOut
        (.responded amountOut' pendsOut) unpends = some vkey ↔
      (∃ out, amountOut valueOut = some out ∧ amountOut' + Expire.minAdaBuffer ≤ out) ∧
        unpends.length ≤ pendsIn.length ∧
        (∀ x ∈ Pends.freed unpends pendsIn, Expire.free lowerBound x.1 x.2 = some ()) ∧
        pendsOut = Pends.remaining unpends pendsIn ∧
        amountOut' = amountIn' - Pends.freedAmount unpends pendsIn ∧ vkey = constants.addVkey := by
  simp only [Expire.do, Expire.account, Option.bind_eq_bind, Option.bind_eq_some_iff,
    Pends.account_eq_some, expect_eq_some, Option.pure_def, Option.some.injEq]
  constructor
  · rintro ⟨amount, ⟨hlength, hfree, hpends, rfl⟩, -, hamount, out, hout, -, hheld, rfl⟩
    exact ⟨⟨out, hout, hheld⟩, hlength, hfree, hpends, hamount, rfl⟩
  · rintro ⟨⟨out, hout, hheld⟩, hlength, hfree, hpends, hamount, rfl⟩
    exact ⟨_, ⟨hlength, hfree, hpends, rfl⟩, (), hamount, out, hout, (), hheld, rfl⟩

/-- Expire takes a responded channel to a responded channel. -/
lemma Expire.stages_of_do {lowerBound : Timebound} {constants : Constants} {valueOut : Value}
    {stageIn stageOut : Stage} {unpends : List Unpend} {vkey : VerificationKey}
    (h : Expire.do lowerBound constants stageIn valueOut stageOut unpends = some vkey) :
    ∃ amountIn' pendsIn amountOut' pendsOut, stageIn = .responded amountIn' pendsIn ∧
      stageOut = .responded amountOut' pendsOut := by
  cases stageIn with
  | responded amountIn' pendsIn =>
    cases stageOut with
    | responded amountOut' pendsOut => exact ⟨_, _, _, _, rfl, rfl⟩
    | opened | closed => exact absurd h (by simp [Expire.do])
  | opened | closed => exact absurd h (by simp [Expire.do])

end Konduit.Kernel
