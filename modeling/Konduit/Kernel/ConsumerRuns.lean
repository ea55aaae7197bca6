import Konduit.Kernel.Coverage
import Konduit.Kernel.SubRuns

/-!
# The consumer waits for the close period

Runs of one channel through transactions, each of which verifies it by a main invocation.
With the steps that the consumer signs alone, an opened channel keeps its lovelace and the
adaptor's record until a transaction that comes no earlier than the close period after a
close (`consumer_waits`).
-/

open Lib

namespace Konduit.Kernel

/-- The steps that the consumer signs. -/
def Step.ByConsumer : Step → Prop
  | .stepCont .add | .stepCont .close | .stepCont (.expire _) | .stepEol .end | .stepEol .elapse =>
    True
  | .stepCont (.sub _ _) | .stepCont (.respond _ _) | .stepCont (.unlock _) => False

/-- A transaction, with what its main invocation verified of the channel. -/
structure Spending where
  tx : Transaction
  own : Verified

/-- A successful main invocation takes a channel from an output to the next one, or ends
it. -/
def Spends (crypto : Crypto) (ownHash : ScriptHash) (s : Option Output) (t : Spending)
    (s' : Option Output) : Prop :=
  s = some t.own.input.output ∧ s' = t.own.output ∧
    ∃ steps vs, Main.Checks crypto ownHash steps t.tx vs ∧ t.own ∈ vs

/-- The runs of a channel through transactions. -/
abbrev SpendRun (crypto : Crypto) (ownHash : ScriptHash) :
    Option Output → List Spending → Option Output → Prop :=
  Trace (Spends crypto ownHash)

/-- The transaction comes no earlier than the close period after an earlier close. -/
def Spending.Late (closePeriod : ℤ) (ts : List Spending) (t : Spending) : Prop :=
  ∃ t' ∈ ts, t'.own.step = .stepCont .close ∧
    ∃ upper lower, t'.tx.validityRange.upper = .finite upper ∧
      t.tx.validityRange.lower = .finite lower ∧ upper + closePeriod ≤ lower

/-- The consumer signs for the transaction, and the channel holds no less after it. -/
def Spending.Grows (crypto : Crypto) (constants : Constants) (t : Spending) : Prop :=
  (crypto.blake2b224 constants.addVkey).1 ∈ t.tx.extraSignatories ∧
    ∃ output, t.own.output = some output ∧ t.own.input.output.lovelace ≤ output.lovelace

/-- After a run from an opened channel, the channel is still there, with the adaptor's
record, and no transaction took lovelace out of it. -/
structure Waited (crypto : Crypto) (ownHash : ScriptHash) (address : Address)
    (constants : Constants) (subbed : Amount) (useds : List Used) (ts : List Spending)
    (s : Option Output) : Prop where
  held : ∃ output stage, s = some output ∧ output.address = address ∧
    output.channel = some ⟨ownHash, constants, stage⟩ ∧ stage.subbed = subbed ∧
    stage.useds = useds
  grows : ∀ t ∈ ts, t.Grows crypto constants

/-- The stages of a channel that the consumer has had to itself: opened, or closed for the
close period from a close in the run. -/
def Waiting (constants : Constants) (subbed : Amount) (useds : List Used) (ts : List Spending)
    (stage : Stage) : Prop :=
  stage = .opened subbed useds ∨
    ∃ elapseAt, stage = .closed subbed useds elapseAt ∧
      ∃ t ∈ ts, t.own.step = .stepCont .close ∧
        ∃ upper, t.tx.validityRange.upper = .finite upper ∧
          upper + constants.closePeriod ≤ elapseAt

/-- The invariant of a run, while no transaction comes late. -/
structure WaitInv (crypto : Crypto) (ownHash : ScriptHash) (address : Address)
    (constants : Constants) (subbed : Amount) (useds : List Used) (ts : List Spending)
    (s : Option Output) : Prop where
  held : ∃ output stage, s = some output ∧ output.address = address ∧
    output.channel = some ⟨ownHash, constants, stage⟩ ∧ Waiting constants subbed useds ts stage
  grows : ∀ t ∈ ts, t.Grows crypto constants

variable {crypto : Crypto} {ownHash : ScriptHash} {address : Address} {constants : Constants}
  {subbed : Amount} {useds : List Used} {ts : List Spending} {t : Spending} {s : Option Output}

/-! ### What one transaction can do -/

lemma Waiting.mono {ts' : List Spending} {stage : Stage}
    (h : Waiting constants subbed useds ts stage) (hsub : ts ⊆ ts') :
    Waiting constants subbed useds ts' stage := by
  rcases h with rfl | ⟨elapseAt, rfl, t, ht, hclose⟩
  · exact Or.inl rfl
  · exact Or.inr ⟨elapseAt, rfl, t, hsub ht, hclose⟩

/-- A consumer's step on a waiting channel is an add or a close, unless it comes late. -/
lemma consumer_cases {stageIn : Stage} (hwaiting : Waiting constants subbed useds ts stageIn)
    (hchannel : t.own.input.output.channel = some ⟨ownHash, constants, stageIn⟩)
    (hvalid : t.own.Valid crypto ownHash t.tx.validityRange) (hstep : t.own.step.ByConsumer)
    (hearly : ¬t.Late constants.closePeriod ts) :
    ∃ output stageOut, t.own.output = some output ∧
      Continues ownHash t.own.input.output.address constants stageOut output ∧
      Waiting constants subbed useds (ts ++ [t]) stageOut ∧
      t.own.input.output.lovelace ≤ output.lovelace ∧ t.own.vkey = constants.addVkey := by
  obtain ⟨tx, ⟨input, step, output, vkey⟩⟩ := t
  obtain ⟨constants', stageIn', hchannel', hvalid⟩ := hvalid
  obtain ⟨rfl, rfl⟩ : constants' = constants ∧ stageIn' = stageIn := by
    simpa using hchannel'.symm.trans hchannel
  cases step with
  | stepCont step =>
    cases output with
    | none => exact absurd hvalid id
    | some output =>
      obtain ⟨stageOut, hcontinues, hcont⟩ := hvalid
      refine ⟨output, stageOut, rfl, hcontinues, ?_⟩
      cases step with
      | add =>
        obtain ⟨⟨-, rfl⟩, ⟨out, hout, hlt⟩, rfl⟩ := Add.do_eq_some.mp hcont
        refine ⟨hwaiting.mono (List.subset_append_left _ _), ?_, rfl⟩
        exact input.output.le_of_amountOut hout hlt.le
      | close =>
        obtain ⟨⟨subbed', useds', elapseAt, upper, rfl, rfl, hupper, helapse⟩, ⟨out, hout, hle⟩,
          rfl⟩ := Close.do_eq_some.mp hcont
        -- only an opened channel can be closed
        obtain ⟨rfl, rfl⟩ : subbed' = subbed ∧ useds' = useds := by
          rcases hwaiting with heq | ⟨_, heq, -⟩
          · exact Stage.opened.inj heq
          · cases heq
        refine ⟨Or.inr ⟨elapseAt, rfl, _, by simp, rfl, upper, hupper, helapse⟩, ?_, rfl⟩
        exact input.output.le_of_amountOut hout hle
      | expire unpends =>
        obtain ⟨_, _, _, _, rfl, -⟩ := Expire.stages_of_do hcont
        rcases hwaiting with heq | ⟨_, heq, -⟩ <;> cases heq
      | sub | respond | unlock => exact absurd hstep id
  | stepEol step =>
    cases output with
    | some output => exact absurd hvalid id
    | none =>
      cases step with
      | elapse =>
        obtain ⟨⟨_, _, elapseAt, lower, rfl, hlower, hle⟩, -⟩ := Elapse.do_eq_some.mp hvalid
        rcases hwaiting with heq | ⟨_, heq, t', ht', hclose, upper, hupper, helapse⟩
        · cases heq
        · obtain ⟨rfl, rfl, rfl⟩ := Stage.closed.inj heq
          exact absurd ⟨t', ht', hclose, upper, lower, hupper, hlower, helapse.trans hle⟩ hearly
      | «end» =>
        rcases hwaiting with rfl | ⟨_, rfl, -⟩
        · exact absurd hvalid (by simp [eol, End.do])
        · exact absurd hvalid (by simp [eol, End.do])

/-! ### What one transaction preserves -/

lemma WaitInv.step {s' : Option Output}
    (h : WaitInv crypto ownHash address constants subbed useds ts s)
    (hspends : Spends crypto ownHash s t s') (hstep : t.own.step.ByConsumer)
    (hearly : ¬t.Late constants.closePeriod ts) :
    WaitInv crypto ownHash address constants subbed useds (ts ++ [t]) s' := by
  obtain ⟨rfl, rfl, steps, vs, hchecks, hmem⟩ := hspends
  obtain ⟨_, stageIn, hown, haddress, hchannel, hwaiting⟩ := h.held
  obtain rfl := Option.some.inj hown
  obtain ⟨output, stageOut, houtput, hcontinues, hwaiting', hle, hvkey⟩ :=
    consumer_cases hwaiting hchannel (hchecks.valid t.own hmem) hstep hearly
  refine ⟨⟨output, stageOut, houtput, hcontinues.address.trans haddress, hcontinues.channel,
    hwaiting'⟩, ?_⟩
  intro t' ht'
  rcases List.mem_append.mp ht' with ht' | ht'
  · exact h.grows t' ht'
  · obtain rfl := List.mem_singleton.mp ht'
    have hsigned := hchecks.signed t'.own hmem
    rw [hvkey] at hsigned
    exact ⟨hsigned, output, houtput, hle⟩

/-! ### What a run preserves -/

/-- As long as no transaction comes late, the consumer's steps leave an opened channel with
all its lovelace and the adaptor's record. -/
theorem consumer_waits {output : Output}
    (hchannel : output.channel = some ⟨ownHash, constants, .opened subbed useds⟩)
    (hrun : SpendRun crypto ownHash (some output) ts s)
    (hsteps : ∀ t ∈ ts, t.own.step.ByConsumer)
    (hearly : ∀ pre t, pre ++ [t] <+: ts → ¬t.Late constants.closePeriod pre) :
    Waited crypto ownHash output.address constants subbed useds ts s := by
  have hinv : WaitInv crypto ownHash output.address constants subbed useds ts s := by
    refine Trace.invariant_of_prefix
      (P := fun ts s => WaitInv crypto ownHash output.address constants subbed useds ts s)
      (Q := fun pre t => t.own.step.ByConsumer ∧ ¬t.Late constants.closePeriod pre) ?_ ?_ hrun
      fun pre t hpre => ⟨hsteps t (hpre.subset (by simp)), hearly pre t hpre⟩
    · exact ⟨⟨output, _, rfl, rfl, hchannel, Or.inl rfl⟩, by simp⟩
    · rintro ts _ t _ h ⟨hconsumer, hnotLate⟩ hspends
      exact h.step hspends hconsumer hnotLate
  obtain ⟨⟨output', stage, hs, haddress, hchannel', hwaiting⟩, hgrows⟩ := hinv
  refine ⟨⟨output', stage, hs, haddress, hchannel', ?_⟩, hgrows⟩
  rcases hwaiting with rfl | ⟨elapseAt, rfl, -⟩
  · exact ⟨rfl, rfl⟩
  · exact ⟨rfl, rfl⟩

/-- The add to the opened channel of the sample transaction. -/
def sampleAdd : Spending where
  tx := sampleTx
  own := ⟨⟨⟨[], 0⟩, sampleOpened 5_000_000⟩, .stepCont .add, some (sampleOpened 7_000_000),
    List.replicate 32 0⟩

/-- The channel of the sample transaction after a close. -/
def sampleClosed : Output :=
  ⟨sampleAddress, 7_000_000, [],
    sampleDatum (.constr 1 [.int 0, .list [], .int 86_400_000]), none⟩

/-- The close of the channel of the sample transaction. -/
def sampleClosing : Spending where
  tx :=
    { inputs := [⟨⟨[], 2⟩, sampleOpened 7_000_000⟩]
      outputs := [sampleClosed]
      validityRange := ⟨.negativeInfinity, .finite 0⟩
      extraSignatories := [List.replicate 28 0]
      datums := []
      distinct := by decide }
  own := ⟨⟨⟨[], 2⟩, sampleOpened 7_000_000⟩, .stepCont .close, some sampleClosed,
    List.replicate 32 0⟩

lemma distinct_sampleClosed :
    ([⟨⟨[], 3⟩, sampleClosed⟩].map Input.outputReference).Nodup := List.nodup_singleton _

/-- An elapse of it, a millisecond before the close period is over. -/
def sampleEarly : Spending where
  tx :=
    { inputs := [⟨⟨[], 3⟩, sampleClosed⟩]
      outputs := []
      validityRange := ⟨.finite 86_399_999, .positiveInfinity⟩
      extraSignatories := [List.replicate 28 0]
      datums := []
      distinct := distinct_sampleClosed }
  own := ⟨⟨⟨[], 3⟩, sampleClosed⟩, .stepEol .elapse, none, List.replicate 32 0⟩

lemma run_sampleAdd :
    SpendRun Crypto.noCrypto (List.replicate 28 0) (some (sampleOpened 5_000_000)) [sampleAdd]
      (some (sampleOpened 7_000_000)) := by
  refine Trace.snoc Trace.nil ⟨rfl, rfl, _,
    [sampleAdd.own, ⟨⟨⟨[], 1⟩, sampleEmpty⟩, .stepEol .end, none, List.replicate 32 0⟩],
    ⟨rfl, rfl, ?_, ⟨[], ?_⟩, ?_⟩, by simp⟩
  · refine List.forall_mem_cons.mpr ⟨⟨_, .opened 0 [], rfl, .opened 0 [], ⟨rfl, rfl, rfl⟩, rfl⟩, ?_⟩
    exact List.forall_mem_singleton.mpr ⟨_, .responded 0 [], rfl, rfl⟩
  · exact Picks.cons rfl (Picks.nil [])
  · simp [sampleAdd, sampleTx, Crypto.noCrypto, BytesN.fill]

lemma run_sampleClosing :
    SpendRun Crypto.noCrypto (List.replicate 28 0) (some (sampleOpened 5_000_000))
      [sampleAdd, sampleClosing] (some sampleClosed) := by
  refine Trace.snoc run_sampleAdd ⟨rfl, rfl, _, [sampleClosing.own], ⟨rfl, rfl, ?_, ⟨[], ?_⟩, ?_⟩,
    List.mem_singleton_self _⟩
  · exact List.forall_mem_singleton.mpr
      ⟨_, .opened 0 [], rfl, .closed 0 [] 86_400_000, ⟨rfl, rfl, rfl⟩, rfl⟩
  · exact Picks.cons rfl (Picks.nil [])
  · simp [sampleClosing, Crypto.noCrypto, BytesN.fill]

/-- In the run of the add, the close and the elapse no transaction comes late. -/
lemma early_sample {pre : List Spending} {t : Spending}
    (hpre : pre ++ [t] <+: [sampleAdd, sampleClosing, sampleEarly]) :
    ¬t.Late 86_400_000 pre := by
  rintro ⟨t', ht', hclose, upper, lower, hupper, hlower, hle⟩
  have ht : t = sampleAdd ∨ t = sampleClosing ∨ t = sampleEarly := by
    simpa using hpre.subset (List.mem_append_right pre (List.mem_singleton_self t))
  have ht' : t' = sampleAdd ∨ t' = sampleClosing ∨ t' = sampleEarly := by
    simpa using hpre.subset (List.mem_append_left [t] ht')
  -- only the elapse has a lower bound, and only the close closes
  rcases ht with rfl | rfl | rfl
  · cases hlower
  · cases hlower
  · rcases ht' with rfl | rfl | rfl
    · cases hclose
    · obtain rfl := Timebound.finite.inj hupper
      obtain rfl := Timebound.finite.inj hlower
      exact absurd hle (by decide)
    · cases hclose

/-- After the add and the close the channel has all its lovelace, and no earlier elapse follows. -/
theorem consumer_waits_of_close :
    Waited Crypto.noCrypto (List.replicate 28 0) sampleAddress
        ⟨[], List.replicate 32 0, List.replicate 32 0, 86_400_000⟩ 0 [] [sampleAdd, sampleClosing]
        (some sampleClosed) ∧
      ¬∃ s, SpendRun Crypto.noCrypto (List.replicate 28 0) (some (sampleOpened 5_000_000))
        [sampleAdd, sampleClosing, sampleEarly] s := by
  refine ⟨consumer_waits rfl run_sampleClosing (by simp [sampleAdd, sampleClosing, Step.ByConsumer])
    fun pre t hpre => early_sample (hpre.trans ⟨[sampleEarly], rfl⟩), ?_⟩
  rintro ⟨s, hrun⟩
  have hwaited := consumer_waits rfl hrun
    (by simp [sampleAdd, sampleClosing, sampleEarly, Step.ByConsumer]) fun pre t => early_sample
  obtain ⟨-, output, houtput, -⟩ := hwaited.grows sampleEarly (by simp)
  cases houtput

end Konduit.Kernel
