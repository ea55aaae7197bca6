import Konduit.Kernel.Lifecycle

/-!
# What a responded channel pays out over a run

A channel enters the responded stage by an accepted respond, and from there unlock and
expire steps free its pendings until it ends.  Respond makes the tally of the datum the sum
of its pendings, and the other two keep it so.  A pending is freed at most once, by its
secret before its timeout or by its timeout, and the adaptor takes no more by unlocks than
the pendings it unlocked (`responded_safety`).
-/

open Lib

namespace Konduit.Kernel

/-- The pendings of the datum. -/
def Stage.pends : Stage → List Pending
  | .responded _ pends => pends
  | .opened _ _ | .closed _ _ _ => []

/-- The steps that free pendings. -/
def Cont.OnPends : Cont → Prop
  | .unlock _ | .expire _ => True
  | .add | .sub _ _ | .close | .respond _ _ => False

namespace Transition

/-- The pendings that a step takes out of the datum, with what frees them. -/
def freed (t : Transition) : List (Unpend × Pending) :=
  match t.step with
  | .unlock unpends | .expire unpends => Pends.freed unpends t.source.stage.pends
  | _ => []

/-- The pendings that an unlock takes out of the datum. -/
def unlocked (t : Transition) : List Pending :=
  match t.step with
  | .unlock unpends => (Pends.freed unpends t.source.stage.pends).map Prod.snd
  | _ => []

/-- The lovelace that an unlock takes out of the channel. -/
def unlockWithdrawn (t : Transition) : Amount :=
  match t.step with
  | .unlock _ => t.withdrawn
  | _ => 0

/-- What may free a pending: an unlock with the 32 bytes under its lock, no later than its
timeout, or an expire no earlier than that. -/
def MayFree (crypto : Crypto) (t : Transition) (unpend : Unpend) (pend : Pending) : Prop :=
  match t.step with
  | .unlock _ => (crypto.sha256 unpend).1 = pend.lock ∧ unpend.length = 32 ∧
      ∃ upper, t.bounds.upper = .finite upper ∧ upper ≤ pend.timeout
  | .expire _ => ∃ lower, t.bounds.lower = .finite lower ∧ pend.timeout ≤ lower
  | _ => False

/-- The step keeps the order of the pendings, and every one of them stays or is freed as it
may be. -/
structure OnlyFrees (crypto : Crypto) (t : Transition) : Prop where
  shrinks : t.target.stage.pends.Sublist t.source.stage.pends
  leaves : (t.target.stage.pends ++ t.freed.map Prod.snd).Perm t.source.stage.pends
  mayFree : ∀ x ∈ t.freed, t.MayFree crypto x.1 x.2

/-- After the step the channel holds the tally of its datum and the ada buffer. -/
def HoldsPends (t : Transition) : Prop :=
  ∃ pAmount pends out, t.target.stage = .responded pAmount pends ∧
    amountOut t.target.value = some out ∧ pAmount + Expire.minAdaBuffer ≤ out

end Transition

/-- The pendings that a run takes out of the datum. -/
def freedBy (ts : List Transition) : List Pending := ts.flatMap fun t => t.freed.map Prod.snd

/-- The pendings that the unlocks of a run take out of the datum. -/
def unlockedBy (ts : List Transition) : List Pending := ts.flatMap Transition.unlocked

/-- The lovelace that the unlocks of a run take out of the channel. -/
def unlockWithdrawnBy (ts : List Transition) : Amount := (ts.map Transition.unlockWithdrawn).sum

/-- What holds of a responded channel after a run that began with some pendings. -/
structure RespondedSafe (crypto : Crypto) (constants : Constants) (pends : List Pending)
    (ts : List Transition) (s : Channel) : Prop where
  /-- The tally of the datum is the sum of its pendings. -/
  tally : s.stage = .responded (pendsAmount s.stage.pends) s.stage.pends
  /-- The pendings only shrink, and none leaves but by an unlock or an expire that may free
  it. -/
  onlyFrees : ∀ t ∈ ts, t.OnlyFrees crypto
  /-- Over the run every pending stays or is freed, once. -/
  shrinks : s.stage.pends.Sublist pends
  leaves : (s.stage.pends ++ freedBy ts).Perm pends
  /-- The unlocks take no more than the pendings that they unlock. -/
  withdrawn : unlockWithdrawnBy ts ≤ pendsAmount (unlockedBy ts)
  /-- Every expire leaves the tally and the ada buffer in the channel. -/
  holds : ∀ t ∈ ts, ∀ unpends, t.step = .expire unpends → t.HoldsPends
  /-- The channel ends only after the timeouts of its pendings. -/
  ends : ∀ bounds vkey, eol bounds constants s.stage .end = some vkey →
    ∀ pend ∈ s.stage.pends, ∃ lower, bounds.lower = .finite lower ∧ pend.timeout ≤ lower

variable {crypto : Crypto} {constants : Constants} {ts : List Transition} {t : Transition}
  {s : Channel} {pends : List Pending}

/-! ### What one step can do -/

/-- An accepted respond leaves a tally that is the sum of the pendings. -/
lemma tally_of_respond {squash : Squash} {cheques : List Cheque}
    (h : t.Accepted crypto constants) (hstep : t.step = .respond squash cheques) :
    t.target.stage = .responded (pendsAmount t.target.stage.pends) t.target.stage.pends := by
  obtain ⟨⟨valueIn, stageIn⟩, bounds, step, ⟨valueOut, stageOut⟩⟩ := t
  obtain ⟨vkey, h⟩ := h
  obtain rfl : step = .respond squash cheques := hstep
  change Respond.do crypto bounds.upper constants valueIn stageIn valueOut stageOut squash
    cheques = some vkey at h
  obtain ⟨subbed, useds, elapseAt, pAmount, pends, rfl, rfl⟩ := Respond.stages_of_do h
  obtain ⟨out, owed, -, haccount, -⟩ := Respond.do_some.mp h
  obtain ⟨-, ⟨-, htotal⟩, -⟩ := Respond.account_eq_some.mp haccount
  rw [Stage.pends, htotal]

/-- What an accepted unlock or expire does to the pendings, the tally and the value. -/
lemma onPends_cases (h : t.Accepted crypto constants) (hstep : t.step.OnPends) :
    ∃ pAmount pends unpends, t.source.stage = .responded pAmount pends ∧
      t.target.stage = .responded (pAmount - Pends.freedAmount unpends pends)
        (Pends.remaining unpends pends) ∧
      unpends.length ≤ pends.length ∧ t.freed = Pends.freed unpends pends ∧
      (∀ x ∈ Pends.freed unpends pends, t.MayFree crypto x.1 x.2) ∧
      ((t.step = .unlock unpends ∧ t.withdrawn ≤ Pends.freedAmount unpends pends) ∨
        (t.step = .expire unpends ∧ t.HoldsPends)) := by
  obtain ⟨⟨valueIn, stageIn⟩, bounds, step, ⟨valueOut, stageOut⟩⟩ := t
  obtain ⟨vkey, h⟩ := h
  cases step with
  | unlock unpends =>
    obtain ⟨pAmount, pends, pAmountOut, pendsOut, rfl, rfl⟩ := Unlock.stages_of_do h
    obtain ⟨⟨out, hout, hsubbed⟩, hlength, hfree, rfl, rfl, -⟩ := Unlock.do_eq_some.mp h
    refine ⟨pAmount, pends, unpends, rfl, rfl, hlength, rfl, ?_, Or.inl ⟨rfl, ?_⟩⟩
    · intro x hx
      have hx := hfree x hx
      simp only [Unlock.free, Option.bind_eq_bind, Option.bind_eq_some_iff, expect_eq_some,
        Timebound.finite?_eq_some] at hx
      obtain ⟨-, hlock, -, hlength, upper, hupper, htime⟩ := hx
      exact ⟨hlock, hlength, upper, hupper, htime⟩
    · rw [Transition.withdrawn, hout, Option.getD_some]
      exact hsubbed
  | expire unpends =>
    obtain ⟨pAmount, pends, pAmountOut, pendsOut, rfl, rfl⟩ := Expire.stages_of_do h
    obtain ⟨⟨out, hout, hheld⟩, hlength, hfree, rfl, rfl, -⟩ := Expire.do_eq_some.mp h
    refine ⟨pAmount, pends, unpends, rfl, rfl, hlength, rfl, ?_, Or.inr ⟨rfl, ?_⟩⟩
    · intro x hx
      have hx := hfree x hx
      simp only [Expire.free, Option.bind_eq_bind, Option.bind_eq_some_iff, expect_eq_some,
        Timebound.finite?_eq_some] at hx
      exact hx
    · exact ⟨_, _, out, rfl, hout, hheld⟩
  | add | sub | close | respond => exact absurd hstep id

/-- An accepted end waits for the timeouts of all pendings. -/
lemma timeout_le_of_end {bounds : Bounds} {stage : Stage} {vkey : VerificationKey}
    (h : eol bounds constants stage .end = some vkey) :
    ∀ pend ∈ stage.pends, ∃ lower, bounds.lower = .finite lower ∧ pend.timeout ≤ lower := by
  cases stage with
  | opened | closed => simp [Stage.pends]
  | responded pAmount pends =>
    change End.do bounds.lower constants (.responded pAmount pends) = some vkey at h
    exact (End.do_eq_some.mp h).1

/-! ### What one step preserves -/

/-- Before any unlock or expire, the tally is all there is to know. -/
lemma RespondedSafe.start (h : s.stage = .responded (pendsAmount s.stage.pends) s.stage.pends) :
    RespondedSafe crypto constants s.stage.pends [] s where
  tally := h
  onlyFrees := by simp
  shrinks := List.Sublist.refl _
  leaves := by simp [freedBy]
  withdrawn := by simp [unlockWithdrawnBy, unlockedBy]
  holds := by simp
  ends := fun _ _ hend => timeout_le_of_end hend

/-- The step only frees. -/
lemma onlyFrees_of_onPends (h : t.Accepted crypto constants) (hstep : t.step.OnPends) :
    t.OnlyFrees crypto := by
  obtain ⟨pAmount, pends, unpends, hsource, htarget, hlength, hfreed, hmay, -⟩ :=
    onPends_cases h hstep
  have hpends : t.source.stage.pends = pends := by rw [hsource, Stage.pends]
  have hpends' : t.target.stage.pends = Pends.remaining unpends pends := by
    rw [htarget, Stage.pends]
  refine ⟨?_, ?_, ?_⟩
  · rw [hpends, hpends']
    exact Pends.remaining_sublist unpends pends
  · rw [hpends, hpends', hfreed]
    exact Pends.remaining_append_freed unpends pends hlength
  · rw [hfreed]
    exact hmay

/-- The tally goes down by what the pendings do. -/
lemma tally_of_onPends (h : t.Accepted crypto constants) (hstep : t.step.OnPends)
    (htally : t.source.stage =
      .responded (pendsAmount t.source.stage.pends) t.source.stage.pends) :
    t.target.stage = .responded (pendsAmount t.target.stage.pends) t.target.stage.pends := by
  obtain ⟨pAmount, pends, unpends, hsource, htarget, -⟩ := onPends_cases h hstep
  have hsplit := Pends.pendsAmount_remaining unpends pends
  rw [hsource] at htally
  have hamount : pAmount = pendsAmount pends := (Stage.responded.inj htally).1
  rw [htarget, Stage.pends, hamount]
  congr 1
  linarith

/-- An unlock takes no more than it unlocks. -/
lemma unlockWithdrawn_le (h : t.Accepted crypto constants) (hstep : t.step.OnPends) :
    t.unlockWithdrawn ≤ pendsAmount t.unlocked := by
  obtain ⟨pAmount, pends, unpends, hsource, -, -, -, -, hkind⟩ := onPends_cases h hstep
  rcases hkind with ⟨hunlock, hle⟩ | ⟨hexpire, -⟩
  · rw [Transition.unlockWithdrawn, Transition.unlocked, hunlock, hsource, Stage.pends]
    exact hle
  · rw [Transition.unlockWithdrawn, Transition.unlocked, hexpire, pendsAmount_nil]

lemma holds_of_expire {unpends : List Unpend} (h : t.Accepted crypto constants)
    (hexpire : t.step = .expire unpends) : t.HoldsPends := by
  obtain ⟨_, _, _, -, -, -, -, -, ⟨hunlock, -⟩ | ⟨-, hholds⟩⟩ :=
    onPends_cases h (by rw [hexpire]; trivial)
  · rw [hexpire] at hunlock
    cases hunlock
  · exact hholds

lemma RespondedSafe.step (h : RespondedSafe crypto constants pends ts t.source)
    (haccepted : t.Accepted crypto constants) (hstep : t.step.OnPends) :
    RespondedSafe crypto constants pends (ts ++ [t]) t.target := by
  have honly := onlyFrees_of_onPends haccepted hstep
  refine ⟨tally_of_onPends haccepted hstep h.tally, ?_, honly.shrinks.trans h.shrinks, ?_, ?_, ?_,
    fun _ _ hend => timeout_le_of_end hend⟩
  · rw [List.forall_mem_append, List.forall_mem_singleton]
    exact ⟨h.onlyFrees, honly⟩
  · -- what leaves now was still there before
    have hfreedBy : freedBy (ts ++ [t]) = freedBy ts ++ t.freed.map Prod.snd := by
      simp [freedBy]
    rw [hfreedBy]
    calc (t.target.stage.pends ++ (freedBy ts ++ t.freed.map Prod.snd)).Perm
          (t.target.stage.pends ++ (t.freed.map Prod.snd ++ freedBy ts)) :=
        List.perm_append_comm.append_left _
      _ = (t.target.stage.pends ++ t.freed.map Prod.snd) ++ freedBy ts :=
        (List.append_assoc _ _ _).symm
      List.Perm _ (t.source.stage.pends ++ freedBy ts) := honly.leaves.append_right _
      List.Perm _ pends := h.leaves
  · have hbefore := h.withdrawn
    have hwithdrawn := unlockWithdrawn_le haccepted hstep
    simp only [unlockWithdrawnBy, unlockedBy, pendsAmount, List.map_append, List.sum_append,
      List.flatMap_append, List.map_cons, List.map_nil, List.sum_cons, List.sum_nil,
      List.flatMap_cons, List.flatMap_nil, List.append_nil, add_zero] at hbefore hwithdrawn ⊢
    exact add_le_add hbefore hwithdrawn
  · rw [List.forall_mem_append, List.forall_mem_singleton]
    exact ⟨h.holds, fun unpends hexpire => holds_of_expire haccepted hexpire⟩

/-! ### What a run preserves -/

/-- Where the tally is right to begin with, a run of unlocks and expires is safe. -/
lemma RespondedSafe.of_run {s₀ : Channel}
    (htally : s₀.stage = .responded (pendsAmount s₀.stage.pends) s₀.stage.pends)
    (hrun : Run crypto constants s₀ ts s) (hsteps : ∀ t ∈ ts, t.step.OnPends) :
    RespondedSafe crypto constants s₀.stage.pends ts s := by
  refine Trace.invariant_of_forall (P := fun ts s =>
    RespondedSafe crypto constants s₀.stage.pends ts s) (.start htally) ?_ hrun hsteps
  rintro ts _ t _ h hstep ⟨rfl, rfl, haccepted⟩
  exact h.step haccepted hstep

/-- From an accepted respond on, whatever unlocks and expires follow, the tally of the datum
is the sum of its pendings, pendings leave only as they may, the unlocks take no more than
they unlock, and the expires leave enough for what is pending. -/
theorem responded_safety {squash : Squash} {cheques : List Cheque} {t₀ : Transition}
    (hrespond : t₀.step = .respond squash cheques) (haccepted : t₀.Accepted crypto constants)
    (hrun : Run crypto constants t₀.target ts s) (hsteps : ∀ t ∈ ts, t.step.OnPends) :
    RespondedSafe crypto constants t₀.target.stage.pends ts s :=
  .of_run (tally_of_respond haccepted hrespond) hrun hsteps

/-- A pending of 10 ada, under the lock of 32 zero bytes. -/
def samplePend : Pending := ⟨10_000_000, 1_765_889_060_000, Crypto.zeroLock.1⟩

/-- A respond at the timeout of the two locked cheques that it makes pending. -/
def sampleRespond : Transition where
  source := ⟨ada 32_000_000, .closed 0 [] 1_765_889_000_000⟩
  bounds := ⟨.finite samplePend.timeout, .finite samplePend.timeout⟩
  step := .respond ⟨⟨10_000_000, 0, []⟩, List.replicate 64 0⟩
    [.lockedCheque ⟨1, 10_000_000, samplePend.timeout, samplePend.lock⟩ (List.replicate 64 0),
      .lockedCheque ⟨2, 10_000_000, samplePend.timeout, samplePend.lock⟩ (List.replicate 64 0)]
  target := ⟨ada 22_000_000, .responded 20_000_000 [samplePend, samplePend]⟩

/-- An unlock of one of two pendings, at their timeout. -/
def sampleUnlock : Transition where
  source := sampleRespond.target
  bounds := sampleRespond.bounds
  step := .unlock [List.replicate 32 0]
  target := ⟨ada 12_000_000, .responded 10_000_000 [samplePend]⟩

/-- An expire of the pending that is left. -/
def sampleExpire : Transition where
  source := sampleUnlock.target
  bounds := sampleRespond.bounds
  step := .expire [[0]]
  target := ⟨ada 2_000_000, .responded 0 []⟩

theorem responded_safety_unlock_expire :
    RespondedSafe Crypto.noCrypto ⟨[], List.replicate 32 0, List.replicate 32 0, 86_400_000⟩
      [samplePend, samplePend] [sampleUnlock, sampleExpire] sampleExpire.target := by
  refine @responded_safety _ _ _ _ _ _ sampleRespond rfl ⟨List.replicate 32 0, by decide⟩ ?_ ?_
  · refine Trace.snoc (Trace.snoc Trace.nil ⟨rfl, rfl, ?_⟩) ⟨rfl, rfl, ?_⟩
    · exact ⟨List.replicate 32 0, by decide⟩
    · exact ⟨List.replicate 32 0, by decide⟩
  · simp [sampleUnlock, sampleExpire, Cont.OnPends]

end Konduit.Kernel
