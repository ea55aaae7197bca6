import Konduit.Kernel.Pends
import Konduit.Kernel.Respond
import Konduit.Kernel.Sub
import Konduit.Lib.Trace

/-!
# Steps and runs of a channel

The remaining steps, what a transaction's list of steps makes of one channel, and runs: a
channel taken by one accepted step after another, each on the continuing output of the
step before.
-/

open Lib

namespace Konduit.Kernel

/-! ### Add, close, elapse and end -/

/-- The consumer puts lovelace into an opened channel. -/
def Add.do (constants : Constants) (valueIn : Value) (stageIn : Stage) (valueOut : Value)
    (stageOut : Stage) : Option VerificationKey :=
  match stageIn with
  | .opened _ _ => do
    expect (stageIn = stageOut)
    let out ← amountOut valueOut
    expect (amountIn valueIn < out)
    return constants.addVkey
  | _ => none

/-- The consumer closes an opened channel, which may elapse no earlier than the close period later.
-/
def Close.do (upperBound : Timebound) (constants : Constants) (valueIn : Value)
    (stageIn : Stage) (valueOut : Value) (stageOut : Stage) : Option VerificationKey :=
  match stageIn, stageOut with
  | .opened subbed useds, .closed subbed' useds' elapseAt => do
    expect (subbed = subbed')
    expect (useds = useds')
    let out ← amountOut valueOut
    expect (amountIn valueIn ≤ out)
    let upperBound ← upperBound.finite?
    expect (upperBound ≤ elapseAt - constants.closePeriod)
    return constants.addVkey
  | _, _ => none

/-- The consumer takes all of a closed channel that nobody responded to in time. -/
def Elapse.do (lowerBound : Timebound) (constants : Constants) (stageIn : Stage) :
    Option VerificationKey :=
  match stageIn with
  | .closed _ _ elapseAt => do
    let lowerBound ← lowerBound.finite?
    expect (elapseAt ≤ lowerBound)
    return constants.addVkey
  | _ => none

/-- The consumer takes the rest of a responded channel, when its pendings have timed out. -/
def End.do (lowerBound : Timebound) (constants : Constants) (stageIn : Stage) :
    Option VerificationKey :=
  match stageIn with
  | .responded _ pendsIn => do
    pendsIn.forM fun pend => do
      let lowerBound ← lowerBound.finite?
      expect (pend.timeout ≤ lowerBound)
    return constants.addVkey
  | _ => none

/-- An add keeps an opened channel as it is, with more lovelace. -/
lemma Add.do_eq_some {constants : Constants} {valueIn valueOut : Value} {stageIn stageOut : Stage}
    {vkey : VerificationKey} :
    Add.do constants valueIn stageIn valueOut stageOut = some vkey ↔
      ((∃ subbed useds, stageIn = .opened subbed useds) ∧ stageOut = stageIn) ∧
        (∃ out, amountOut valueOut = some out ∧ amountIn valueIn < out) ∧
        vkey = constants.addVkey := by
  cases stageIn with
  | opened subbed useds =>
    simp only [Add.do, Option.bind_eq_bind, Option.bind_eq_some_iff, expect_eq_some,
      Option.pure_def, Option.some.injEq]
    constructor
    · rintro ⟨-, hstage, out, hout, -, hlt, rfl⟩
      exact ⟨⟨⟨subbed, useds, rfl⟩, hstage.symm⟩, ⟨out, hout, hlt⟩, rfl⟩
    · rintro ⟨⟨-, hstage⟩, ⟨out, hout, hlt⟩, rfl⟩
      exact ⟨(), hstage.symm, out, hout, (), hlt, rfl⟩
  | closed | responded => simp [Add.do]

/-- A close keeps the counter, the useds and the lovelace, and sets the time from which the
channel can elapse. -/
lemma Close.do_eq_some {upperBound : Timebound} {constants : Constants} {valueIn valueOut : Value}
    {stageIn stageOut : Stage} {vkey : VerificationKey} :
    Close.do upperBound constants valueIn stageIn valueOut stageOut = some vkey ↔
      (∃ subbed useds elapseAt upper, stageIn = .opened subbed useds ∧
          stageOut = .closed subbed useds elapseAt ∧ upperBound = .finite upper ∧
          upper + constants.closePeriod ≤ elapseAt) ∧
        (∃ out, amountOut valueOut = some out ∧ amountIn valueIn ≤ out) ∧
        vkey = constants.addVkey := by
  cases stageIn with
  | opened subbed useds =>
    cases stageOut with
    | closed subbed' useds' elapseAt =>
      simp only [Close.do, Option.bind_eq_bind, Option.bind_eq_some_iff, expect_eq_some,
        Timebound.finite?_eq_some, Option.pure_def, Option.some.injEq]
      constructor
      · rintro ⟨-, rfl, -, rfl, out, hout, -, hle, upper, hupper, -, helapse, rfl⟩
        refine ⟨⟨subbed, useds, elapseAt, upper, rfl, rfl, hupper, ?_⟩, ⟨out, hout, hle⟩, rfl⟩
        linarith
      · rintro ⟨⟨_, _, _, upper, hin, hstage, hupper, helapse⟩, ⟨out, hout, hle⟩, rfl⟩
        obtain ⟨rfl, rfl⟩ := Stage.opened.inj hin
        obtain ⟨rfl, rfl, rfl⟩ := Stage.closed.inj hstage
        exact ⟨(), rfl, (), rfl, out, hout, (), hle, upper, hupper, (), by linarith, rfl⟩
    | opened | responded => simp [Close.do]
  | closed | responded => simp [Close.do]

/-- A closed channel elapses from the time that its close set. -/
lemma Elapse.do_eq_some {lowerBound : Timebound} {constants : Constants} {stageIn : Stage}
    {vkey : VerificationKey} :
    Elapse.do lowerBound constants stageIn = some vkey ↔
      (∃ subbed useds elapseAt lower, stageIn = .closed subbed useds elapseAt ∧
          lowerBound = .finite lower ∧ elapseAt ≤ lower) ∧ vkey = constants.addVkey := by
  cases stageIn with
  | closed subbed useds elapseAt =>
    simp only [Elapse.do, Option.bind_eq_bind, Option.bind_eq_some_iff, expect_eq_some,
      Timebound.finite?_eq_some, Option.pure_def, Option.some.injEq]
    constructor
    · rintro ⟨lower, hlower, -, hle, rfl⟩
      exact ⟨⟨subbed, useds, elapseAt, lower, rfl, hlower, hle⟩, rfl⟩
    · rintro ⟨⟨_, _, _, lower, hstage, hlower, hle⟩, rfl⟩
      obtain ⟨rfl, rfl, rfl⟩ := Stage.closed.inj hstage
      exact ⟨lower, hlower, (), hle, rfl⟩
  | opened | responded => simp [Elapse.do]

/-- A channel ends only after the timeouts of its pendings. -/
lemma End.do_eq_some {lowerBound : Timebound} {constants : Constants} {amount : Amount}
    {pends : List Pending} {vkey : VerificationKey} :
    End.do lowerBound constants (.responded amount pends) = some vkey ↔
      (∀ pend ∈ pends, ∃ lower, lowerBound = .finite lower ∧ pend.timeout ≤ lower) ∧
        vkey = constants.addVkey := by
  have hforM : (∃ u, (pends.forM fun pend => do
        let lowerBound ← lowerBound.finite?
        expect (pend.timeout ≤ lowerBound)) = some u) ↔
      ∀ pend ∈ pends, ∃ lower, lowerBound = .finite lower ∧ pend.timeout ≤ lower := by
    induction pends with
    | nil => simp
    | cons pend pends ih =>
      rw [List.forall_mem_cons, ← ih]
      simp [List.forM_cons, Option.bind_eq_some_iff]
  rw [← hforM]
  simp only [End.do, Option.bind_eq_bind, Option.bind_eq_some_iff, Option.pure_def,
    Option.some.injEq]
  constructor
  · rintro ⟨u, hu, rfl⟩
    exact ⟨⟨u, hu⟩, rfl⟩
  · rintro ⟨⟨u, hu⟩, rfl⟩
    exact ⟨u, hu, rfl⟩

/-! ### Steps -/

/-- The two ends of a transaction's validity interval. -/
structure Bounds where
  lower : Timebound
  upper : Timebound

/-- The key that must sign for a step with a continuing output. -/
def cont (crypto : Crypto) (bounds : Bounds) (constants : Constants) (valueIn : Value)
    (stageIn : Stage) (valueOut : Value) (stageOut : Stage) : Cont → Option VerificationKey
  | .add => Add.do constants valueIn stageIn valueOut stageOut
  | .sub squash unlockeds =>
    Sub.do crypto bounds.upper constants valueIn stageIn valueOut stageOut squash unlockeds
  | .close => Close.do bounds.upper constants valueIn stageIn valueOut stageOut
  | .respond squash cheques =>
    Respond.do crypto bounds.upper constants valueIn stageIn valueOut stageOut squash cheques
  | .unlock unpends =>
    Unlock.do crypto bounds.upper constants valueIn stageIn valueOut stageOut unpends
  | .expire unpends => Expire.do bounds.lower constants stageIn valueOut stageOut unpends

/-- The key that must sign for a step that ends a channel. -/
def eol (bounds : Bounds) (constants : Constants) (stageIn : Stage) : Eol → Option VerificationKey
  | .end => End.do bounds.lower constants stageIn
  | .elapse => Elapse.do bounds.lower constants stageIn

/-! ### Runs -/

/-- A channel between two steps: the value and the stage of its output. -/
structure Channel where
  value : Value
  stage : Stage

/-- One step of a channel, with the transaction bounds it is verified under. -/
structure Transition where
  source : Channel
  bounds : Bounds
  step : Cont
  target : Channel

/-- The kernel accepts the step. -/
def Transition.Accepted (crypto : Crypto) (constants : Constants) (t : Transition) : Prop :=
  ∃ vkey, cont crypto t.bounds constants t.source.value t.source.stage t.target.value
    t.target.stage t.step = some vkey

/-- An accepted step takes the channel from its source to its target. -/
def Steps (crypto : Crypto) (constants : Constants) (s : Channel) (t : Transition)
    (s' : Channel) : Prop :=
  t.source = s ∧ t.target = s' ∧ t.Accepted crypto constants

/-- The runs of a channel, each with the list of its steps. -/
abbrev Run (crypto : Crypto) (constants : Constants) :
    Channel → List Transition → Channel → Prop :=
  Trace (Steps crypto constants)

/-- The lovelace that a step takes out of the channel. -/
def Transition.withdrawn (t : Transition) : Amount :=
  amountIn t.source.value - (amountOut t.target.value).getD 0

end Konduit.Kernel
