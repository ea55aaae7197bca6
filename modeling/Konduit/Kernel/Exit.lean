import Konduit.Kernel.Batch
import Konduit.Kernel.ConsumerRuns
import Konduit.Kernel.Life

/-!
# The consumer can leave

Whatever is done to an opened channel, and by whom, the consumer can close it until someone does.
From the time that the close put in the datum on, when the cheques that were left locked are past
their timeouts, any transaction that the consumer signs may take all that the channel holds
(`consumer_leaves`).
-/

open Lib

namespace Konduit.Kernel

/-! ### Datums as data -/

section ToData

open Plutus

/-- The data of the constants, as a list of the fields. -/
def Constants.toData (constants : Constants) : Data :=
  .list [.bytes constants.tag, .bytes constants.addVkey, .bytes constants.subVkey,
    .int constants.closePeriod]

/-- The data of a used cheque. -/
def Used.toData (used : Used) : Data := .list [.int used.index, .int used.amount]

/-- The data of a pending cheque. -/
def Pending.toData (pend : Pending) : Data :=
  .list [.int pend.amount, .int pend.timeout, .bytes pend.lock]

/-- The data of a stage, a constructor for each. -/
def Stage.toData : Stage → Data
  | .opened subbed useds => .constr 0 [.int subbed, .list (useds.map Used.toData)]
  | .closed subbed useds elapseAt =>
    .constr 1 [.int subbed, .list (useds.map Used.toData), .int elapseAt]
  | .responded amount pends => .constr 2 [.int amount, .list (pends.map Pending.toData)]

/-- The data of a channel's datum. -/
def Datum.toData (datum : Datum) : Data :=
  .list [.bytes datum.ownHash, datum.constants.toData, datum.stage.toData]

/-- A datum is read back from its data. -/
lemma Datum.ofData_toData (datum : Datum) : Datum.ofData datum.toData = some datum := by
  obtain ⟨ownHash, constants, stage⟩ := datum
  have huseds (useds : List Used) : (useds.map Used.toData).mapM Used.ofData = some useds := by
    have h : (useds.map Used.toData).mapM Used.ofData = some (useds.map id) :=
      mapM_map_of_read fun _ _ => rfl
    rwa [List.map_id] at h
  have hpends (pends : List Pending) :
      (pends.map Pending.toData).mapM Pending.ofData = some pends := by
    have h : (pends.map Pending.toData).mapM Pending.ofData = some (pends.map id) :=
      mapM_map_of_read fun _ _ => rfl
    rwa [List.map_id] at h
  have hstage : Stage.ofData stage.toData = some stage := by
    cases stage with
    | opened subbed useds => simp [Stage.toData, Stage.ofData, huseds]
    | closed subbed useds elapseAt => simp [Stage.toData, Stage.ofData, huseds]
    | responded amount pends => simp [Stage.toData, Stage.ofData, hpends]
  simp [Datum.ofData, Datum.toData, Constants.toData, Constants.ofData, hstage]

end ToData

/-! ### Statements -/

/-- A transaction that the consumer signs, and that spends this input alone at the script. -/
structure Transaction.ConsumerSpends (tx : Transaction) (crypto : Crypto) (ownHash : ScriptHash)
    (constants : Constants) (input : Input) : Prop where
  alone : tx.inputs.filter (Input.atScript ownHash) = [input]
  signed : (crypto.blake2b224 constants.addVkey).1 ∈ tx.extraSignatories

/-- The transaction closes the channel, which may elapse from this time on. -/
def Spending.ClosesAt (t : Spending) (elapseAt : Timestamp) : Prop :=
  t.own.step = .stepCont .close ∧ ∃ output ownHash constants subbed useds,
    t.own.output = some output ∧
      output.channel = some ⟨ownHash, constants, .closed subbed useds elapseAt⟩

/-- No cheque with the consumer's signature that the transaction leaves locked times out after
this. -/
def Spending.LocksBy (crypto : Crypto) (constants : Constants) (time : Timestamp) (t : Spending) :
    Prop :=
  ∀ squash cheques body signature, t.own.step = .stepCont (.respond squash cheques) →
    .lockedCheque body signature ∈ cheques →
      wellsigned crypto constants.addVkey constants.tag body signature = true →
        body.timeout ≤ time

/-- What the consumer can do about a channel after a run. -/
structure MayLeave (crypto : Crypto) (ownHash : ScriptHash) (constants : Constants)
    (time : Timestamp) (ts : List Spending) (output : Output) : Prop where
  /-- As long as nobody closed it, the consumer can, with all its lovelace. -/
  close : (∀ t ∈ ts, t.own.step ≠ .stepCont .close) → ∀ upper elapseAt : Timestamp,
    upper + constants.closePeriod ≤ elapseAt →
      ∃ closed subbed useds, closed.lovelace = output.lovelace ∧
        Continues ownHash output.address constants (.closed subbed useds elapseAt) closed ∧
        ∀ (tx : Transaction) oref rest, tx.ConsumerSpends crypto ownHash constants ⟨oref, output⟩ →
          tx.validityRange.upper = .finite upper → tx.outputs = closed :: rest →
            tx.Validates crypto ownHash fun _ => .main [.stepCont .close]
  /-- Once it is closed, any transaction may take all of it, when the times are past. -/
  leave : ∀ t ∈ ts, ∀ elapseAt, t.ClosesAt elapseAt → ∀ (tx : Transaction) oref lower,
    tx.ConsumerSpends crypto ownHash constants ⟨oref, output⟩ →
      tx.validityRange.lower = .finite lower → elapseAt ≤ lower → time ≤ lower →
        ∃ step, tx.Validates crypto ownHash fun _ => .main [.stepEol step]

/-- The stage comes after a close, and may elapse from this time on unless it was responded to. -/
def Stage.ClosedAt (elapseAt : Timestamp) : Stage → Prop
  | .opened _ _ => False
  | .closed _ _ elapseAt' => elapseAt' = elapseAt
  | .responded _ _ => True

/-- What every transaction preserves of a channel that was opened. -/
structure LeaveInv (ownHash : ScriptHash) (constants : Constants) (time : Timestamp)
    (ts : List Spending) (output : Output) (stage : Stage) : Prop where
  channel : output.channel = some ⟨ownHash, constants, stage⟩
  pends : ∀ pend ∈ stage.pends, pend.timeout ≤ time
  opened : (∀ t ∈ ts, t.own.step ≠ .stepCont .close) → ∃ subbed useds, stage = .opened subbed useds
  closed : ∀ t ∈ ts, ∀ elapseAt, t.ClosesAt elapseAt → stage.ClosedAt elapseAt

variable {crypto : Crypto} {ownHash : ScriptHash} {constants : Constants} {time : Timestamp}
  {ts : List Spending} {t : Spending} {output : Output}

/-! ### One channel alone -/

/-- Main accepts a step that is accepted, on a channel that is spent alone. -/
lemma validates_of_alone {tx : Transaction} {v : Verified}
    (halone : tx.inputs.filter (Input.atScript ownHash) = [v.input])
    (hsigned : (crypto.blake2b224 v.vkey).1 ∈ tx.extraSignatories)
    (houtputs : ∃ rest, tx.outputs = v.output.toList ++ rest)
    (hvalid : v.Valid crypto ownHash tx.validityRange) :
    tx.Validates crypto ownHash fun _ => .main [v.step] := by
  have hvalids : ∀ w ∈ [v], w.Valid crypto ownHash tx.validityRange :=
    List.forall_mem_singleton.mpr hvalid
  have hlaid : LaidOut crypto ownHash tx [v] := by
    obtain ⟨rest, houtputs⟩ := houtputs
    refine ⟨halone.symm, ⟨rest, ?_⟩, List.forall_mem_singleton.mpr hsigned⟩
    rw [houtputs]
    cases h : v.output <;> simp [h]
  have hinputs : [v].map Verified.input = tx.inputs.filter (Input.atScript ownHash) := halone.symm
  exact (validates_iff hinputs (fun w hw => (hvalids w hw).channel) rfl).mpr
    ⟨_, hlaid.checks hvalids⟩

/-! ### What one transaction preserves -/

/-- A transaction's step on a channel, as a step of its stages. -/
lemma accepted_of_valid {bounds : Bounds} {stage : Stage} {v : Verified}
    (hvalid : v.Valid crypto ownHash bounds)
    (hchannel : v.input.output.channel = some ⟨ownHash, constants, stage⟩)
    (hout : v.output = some output) :
    ∃ step stageOut, v.step = .stepCont step ∧
      output.channel = some ⟨ownHash, constants, stageOut⟩ ∧
        Transition.Accepted crypto constants
          ⟨⟨v.input.output.value, stage⟩, bounds, step, ⟨output.value, stageOut⟩⟩ := by
  obtain ⟨input, step, output', vkey⟩ := v
  obtain rfl : output' = some output := hout
  obtain ⟨constants', stage', hchannel', hvalid⟩ := hvalid
  obtain ⟨-, rfl, rfl⟩ := Datum.mk.inj (Option.some.inj (hchannel'.symm.trans hchannel))
  cases step with
  | stepEol step => exact absurd hvalid id
  | stepCont step =>
    obtain ⟨stageOut, hcontinues, hcont⟩ := hvalid
    exact ⟨step, stageOut, rfl, hcontinues.channel, _, hcont⟩

/-- The pendings after a step were there, or are locked cheques of a respond. -/
lemma pends_of_accepted {s : Transition} (h : s.Accepted crypto constants) :
    ∀ pend ∈ s.target.stage.pends, pend ∈ s.source.stage.pends ∨
      ∃ squash cheques body signature, s.step = .respond squash cheques ∧
        .lockedCheque body signature ∈ cheques ∧
          wellsigned crypto constants.addVkey constants.tag body signature = true ∧
            body.timeout = pend.timeout := by
  intro pend hpend
  rcases stages_of_accepted h with ⟨-, _, _, _, _, -, htarget⟩ | ⟨-, _, _, _, -, htarget⟩ |
    ⟨squash, cheques, hstep, subbed, useds, elapseAt, pAmount, pends, hsource, htarget⟩ | ⟨hstep, -⟩
  · rw [htarget] at hpend
    cases hpend
  · rw [htarget] at hpend
    cases hpend
  · -- every pending is that of a locked cheque
    obtain ⟨⟨valueIn, stageIn⟩, bounds, step, ⟨valueOut, stageOut⟩⟩ := s
    obtain rfl : stageIn = _ := hsource
    obtain rfl : stageOut = _ := htarget
    obtain rfl : step = _ := hstep
    obtain ⟨vkey, h⟩ := h
    change Respond.do crypto bounds.upper constants valueIn (.closed subbed useds elapseAt) valueOut
      (.responded pAmount pends) squash cheques = some vkey at h
    obtain ⟨out, owed, -, haccount, -⟩ := Respond.do_some.mp h
    obtain ⟨⟨-, husable⟩, ⟨hpends, -⟩, -⟩ := Respond.account_eq_some.mp haccount
    change pend ∈ _ at hpend
    rw [Stage.pends, hpends, Respond.pendingsOf_eq_map] at hpend
    obtain ⟨cheque, hcheque, rfl⟩ := List.mem_map.mp hpend
    have hmem := Respond.mem_lockedsOf.mp hcheque
    exact .inr ⟨squash, cheques, cheque.body, cheque.signature, rfl, hmem, husable _ hmem, rfl⟩
  · obtain ⟨_, pends, unpends, hsource, htarget, -⟩ := onPends_cases h hstep
    rw [htarget] at hpend
    rw [hsource]
    exact .inl ((Pends.remaining_sublist unpends pends).subset hpend)

/-- Only a close takes a channel out of its opened stage. -/
lemma opened_of_accepted {s : Transition} (h : s.Accepted crypto constants)
    (hclose : s.step ≠ .close) (hopened : ∃ subbed useds, s.source.stage = .opened subbed useds) :
    ∃ subbed useds, s.target.stage = .opened subbed useds := by
  obtain ⟨_, _, hopened⟩ := hopened
  rcases stages_of_accepted h with ⟨-, _, _, subbed, useds, -, htarget⟩ | ⟨hstep, -⟩ |
    ⟨_, _, -, _, _, _, _, _, hsource, -⟩ | ⟨-, _, _, _, _, hsource, -⟩
  · exact ⟨subbed, useds, htarget⟩
  · exact absurd hstep hclose
  · cases hopened.symm.trans hsource
  · cases hopened.symm.trans hsource

/-- A closed channel stays as it was closed, or is responded to. -/
lemma closedAt_of_accepted {s : Transition} {elapseAt : Timestamp}
    (h : s.Accepted crypto constants) (hclosed : s.source.stage.ClosedAt elapseAt) :
    s.target.stage.ClosedAt elapseAt := by
  rcases stages_of_accepted h with ⟨-, _, _, _, _, hsource, -⟩ | ⟨-, _, _, _, hsource, -⟩ |
    ⟨_, _, -, _, _, _, _, _, -, htarget⟩ | ⟨-, _, _, _, _, -, htarget⟩
  · rw [hsource] at hclosed
    exact hclosed.elim
  · rw [hsource] at hclosed
    exact hclosed.elim
  · rw [htarget]
    trivial
  · rw [htarget]
    trivial

/-- A transaction that goes on with the channel. -/
lemma LeaveInv.step {stage : Stage} {output' : Output}
    (h : LeaveInv ownHash constants time ts t.own.input.output stage)
    (hvalid : t.own.Valid crypto ownHash t.tx.validityRange) (hout : t.own.output = some output')
    (hlocks : t.LocksBy crypto constants time) :
    ∃ stage', LeaveInv ownHash constants time (ts ++ [t]) output' stage' := by
  obtain ⟨step, stageOut, hstep, hchannel, haccepted⟩ := accepted_of_valid hvalid h.channel hout
  refine ⟨stageOut, hchannel, fun pend hpend => ?_, fun hnone => ?_, fun t' ht' elapseAt hat => ?_⟩
  · rcases pends_of_accepted haccepted pend hpend with
      hpend | ⟨squash, cheques, body, signature, hrespond, hmem, hsigned, htimeout⟩
    · exact h.pends pend hpend
    · obtain rfl : step = .respond squash cheques := hrespond
      exact htimeout ▸ hlocks squash cheques body signature hstep hmem hsigned
  · obtain ⟨hbefore, hnow⟩ := List.forall_mem_append.mp hnone
    have hclose : step ≠ .close := by
      rintro rfl
      exact hnow t (List.mem_singleton_self t) hstep
    exact opened_of_accepted haccepted hclose (h.opened hbefore)
  · rcases List.mem_append.mp ht' with ht' | ht'
    · exact closedAt_of_accepted haccepted (h.closed t' ht' elapseAt hat)
    · -- the transaction itself closes the channel
      obtain rfl := List.mem_singleton.mp ht'
      obtain ⟨-, closed, _, _, subbed, useds, hclosed, hdatum⟩ := hat
      obtain rfl := Option.some.inj (hout.symm.trans hclosed)
      obtain ⟨-, -, rfl⟩ := Datum.mk.inj (Option.some.inj (hchannel.symm.trans hdatum))
      rfl

/-! ### What the consumer can do -/

/-- The channel of an output, with all its lovelace and another datum. -/
def closedOutput (output : Output) (datum : Datum) : Output where
  address := output.address
  lovelace := output.lovelace
  assets := []
  datum := .inlineDatum datum.toData
  referenceScript := none

/-- An opened channel can be closed. -/
lemma closes_of_opened {subbed : Amount} {useds : List Used} {upper elapseAt : Timestamp}
    (hchannel : output.channel = some ⟨ownHash, constants, .opened subbed useds⟩)
    (helapse : upper + constants.closePeriod ≤ elapseAt) :
    ∃ closed subbed useds, closed.lovelace = output.lovelace ∧
      Continues ownHash output.address constants (.closed subbed useds elapseAt) closed ∧
      ∀ (tx : Transaction) oref rest, tx.ConsumerSpends crypto ownHash constants ⟨oref, output⟩ →
        tx.validityRange.upper = .finite upper → tx.outputs = closed :: rest →
          tx.Validates crypto ownHash fun _ => .main [.stepCont .close] := by
  let closed := closedOutput output ⟨ownHash, constants, .closed subbed useds elapseAt⟩
  have hcontinues : Continues ownHash output.address constants (.closed subbed useds elapseAt)
      closed := ⟨rfl, Datum.ofData_toData _, rfl⟩
  refine ⟨closed, subbed, useds, rfl, hcontinues, fun tx oref rest hspends hupper houtputs => ?_⟩
  have hclose : Close.do tx.validityRange.upper constants output.value (.opened subbed useds)
      closed.value (.closed subbed useds elapseAt) = some constants.addVkey :=
    Close.do_eq_some.mpr ⟨⟨subbed, useds, elapseAt, upper, rfl, rfl, hupper, helapse⟩,
      ⟨output.lovelace.toNat, rfl, le_of_eq output.amountIn_value⟩, rfl⟩
  exact validates_of_alone
    (v := ⟨⟨oref, output⟩, .stepCont .close, some closed, constants.addVkey⟩)
    hspends.alone hspends.signed ⟨rest, houtputs⟩ ⟨constants, _, hchannel, _, hcontinues, hclose⟩

/-- From its time on a closed channel elapses, or ends when it was responded to. -/
lemma leaves_of_closedAt {stage : Stage} {elapseAt lower : Timestamp} {tx : Transaction}
    {oref : OutputReference} (hchannel : output.channel = some ⟨ownHash, constants, stage⟩)
    (hclosed : stage.ClosedAt elapseAt)
    (hspends : tx.ConsumerSpends crypto ownHash constants ⟨oref, output⟩)
    (hlower : tx.validityRange.lower = .finite lower) (helapse : elapseAt ≤ lower)
    (hpends : ∀ pend ∈ stage.pends, pend.timeout ≤ lower) :
    ∃ step, tx.Validates crypto ownHash fun _ => .main [.stepEol step] := by
  have hvalidates (step : Eol)
      (h : eol tx.validityRange constants stage step = some constants.addVkey) :
      ∃ step, tx.Validates crypto ownHash fun _ => .main [.stepEol step] :=
    ⟨step, validates_of_alone
      (v := ⟨⟨oref, output⟩, .stepEol step, none, constants.addVkey⟩)
      hspends.alone hspends.signed ⟨_, rfl⟩ ⟨constants, _, hchannel, h⟩⟩
  cases stage with
  | opened => exact hclosed.elim
  | closed subbed useds elapseAt' =>
    obtain rfl : elapseAt' = elapseAt := hclosed
    have helapses : Elapse.do tx.validityRange.lower constants (.closed subbed useds elapseAt') =
        some constants.addVkey :=
      Elapse.do_eq_some.mpr ⟨⟨subbed, useds, elapseAt', lower, rfl, hlower, helapse⟩, rfl⟩
    exact hvalidates .elapse helapses
  | responded amount pends =>
    have hend : End.do tx.validityRange.lower constants (.responded amount pends) =
        some constants.addVkey :=
      End.do_eq_some.mpr ⟨fun pend hpend => ⟨lower, hlower, hpends pend hpend⟩, rfl⟩
    exact hvalidates .end hend

lemma LeaveInv.mayLeave {stage : Stage} (h : LeaveInv ownHash constants time ts output stage) :
    MayLeave crypto ownHash constants time ts output where
  close hnone upper elapseAt helapse := by
    obtain ⟨subbed, useds, rfl⟩ := h.opened hnone
    exact closes_of_opened h.channel helapse
  leave t ht elapseAt hat tx oref lower hspends hlower helapse htime :=
    leaves_of_closedAt h.channel (h.closed t ht elapseAt hat) hspends hlower helapse
      fun pend hpend => (h.pends pend hpend).trans htime

/-- **The consumer can leave.**  After any run from an opened channel, whoever took its steps: until
a close the consumer can close it, and after a close take all that it holds, from the time that the
close set on and when all cheques that were left locked have timed out. -/
theorem consumer_leaves {start : Output} {subbed : Amount} {useds : List Used} {s : Option Output}
    (hchannel : start.channel = some ⟨ownHash, constants, .opened subbed useds⟩)
    (hrun : SpendRun crypto ownHash (some start) ts s)
    (hlocks : ∀ t ∈ ts, t.LocksBy crypto constants time) :
    ∀ output, s = some output → MayLeave crypto ownHash constants time ts output := by
  have hinv : ∀ output, s = some output → ∃ stage, LeaveInv ownHash constants time ts output stage
      := by
    refine Trace.invariant_of_forall (Q := fun t => t.LocksBy crypto constants time)
      (P := fun ts s => ∀ output, s = some output →
        ∃ stage, LeaveInv ownHash constants time ts output stage) ?_ ?_ hrun hlocks
    · intro output houtput
      obtain rfl := Option.some.inj houtput
      refine ⟨_, hchannel, ?_, fun _ => ⟨subbed, useds, rfl⟩, ?_⟩
      · simp [Stage.pends]
      · simp
    · rintro ts _ t _ hbefore hlocked ⟨rfl, rfl, steps, vs, hchecks, hmem⟩ output houtput
      obtain ⟨stage, hstage⟩ := hbefore _ rfl
      exact hstage.step (hchecks.valid t.own hmem) houtput hlocked
  intro output houtput
  obtain ⟨stage, hstage⟩ := hinv output houtput
  exact hstage.mayLeave

/-- A day later the consumer spends what the close left. -/
def sampleLeaving : Transaction where
  inputs := [⟨⟨[], 3⟩, sampleClosed⟩]
  outputs := []
  validityRange := ⟨.finite 86_400_000, .positiveInfinity⟩
  extraSignatories := [List.replicate 28 0]
  datums := []
  distinct := distinct_sampleClosed

theorem consumer_leaves_of_close :
    ∃ step, sampleLeaving.Validates Crypto.noCrypto (List.replicate 28 0)
      fun _ => .main [.stepEol step] := by
  have hlocks : ∀ t ∈ [sampleAdd, sampleClosing], t.LocksBy Crypto.noCrypto
      ⟨[], List.replicate 32 0, List.replicate 32 0, 86_400_000⟩ 0 := by
    refine List.forall_mem_cons.mpr ⟨?_, List.forall_mem_singleton.mpr ?_⟩
    · rintro _ _ _ _ ⟨⟩
    · rintro _ _ _ _ ⟨⟩
  have hleaves := consumer_leaves rfl run_sampleClosing hlocks _ rfl
  refine hleaves.leave sampleClosing (List.mem_cons_of_mem _ (List.mem_singleton_self _)) 86_400_000
    ⟨rfl, sampleClosed, _, _, 0, [], rfl, rfl⟩ sampleLeaving ⟨[], 3⟩ 86_400_000 ⟨rfl, ?_⟩ rfl le_rfl
    (by decide)
  simp [sampleLeaving, Crypto.noCrypto, BytesN.fill]

end Konduit.Kernel
