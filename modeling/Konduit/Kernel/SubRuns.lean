import Konduit.Kernel.Lifecycle

/-!
# What the adaptor can sub over a run

Runs of an opened channel by add, sub and close steps.  The kernel takes a squash as the
consumer signed it and does not look at the order of its exclude list; it leaves that to
the two parties.  What the datum's counter and useds say about the run, and how far the
counter stays within the evidence, is `sub_safety`.
-/

open Lib

namespace Konduit.Kernel

namespace Stage

/-- The amount subbed so far. -/
def subbed : Stage → Amount
  | opened subbed _ | closed subbed _ _ => subbed
  | responded _ _ => 0

/-- The cheques that were subbed. -/
def useds : Stage → List Used
  | opened _ useds | closed _ useds _ => useds
  | responded _ _ => []

end Stage

/-- The steps that leave the counter and the useds in the datum. -/
def Cont.BeforeRespond : Cont → Prop
  | .add | .sub _ _ | .close => True
  | .respond _ _ | .unlock _ | .expire _ => False

/-- The step is a sub on a squash and unlocked cheques. -/
def Transition.Subs (t : Transition) (squash : Squash) (unlockeds : List Unlocked) : Prop :=
  t.step = .sub squash unlockeds

/-- The lovelace that the sub steps of a run took out, net. -/
def subbedBy : List Transition → Amount
  | [] => 0
  | t :: ts => (match t.step with | .sub _ _ => t.withdrawn | _ => 0) + subbedBy ts

lemma subbedBy_concat (ts : List Transition) (t : Transition) :
    subbedBy (ts ++ [t]) =
      subbedBy ts + (match t.step with | .sub _ _ => t.withdrawn | _ => 0) := by
  induction ts with
  | nil => simp [subbedBy]
  | cons t' ts ih => simp [subbedBy, ih, add_assoc]

section Statements

variable (crypto : Crypto) (constants : Constants)

/-- The step is a sub that proves the cheque. -/
def Transition.Proves (t : Transition) (cheque : Unlocked) : Prop :=
  ∃ squash unlockeds, t.Subs squash unlockeds ∧ cheque ∈ unlockeds ∧
    cheque.Proven crypto t.bounds.upper constants.addVkey constants.tag

/-- Some sub of the run put the used into the datum, and proved a cheque for it. -/
def Backed (ts : List Transition) (used : Used) : Prop :=
  ∃ t ∈ ts, used ∈ t.target.stage.useds ∧ used ∉ t.source.stage.useds ∧
    ∃ cheque, t.Proves crypto constants cheque ∧ cheque.used = used

/-- After the sub that ends a run, the counter is within the squash and cheques that it
does not cover, of distinct indexes and each proven in the run. -/
def Credited (ts : List Transition) (t : Transition) : Prop :=
  ∀ squash unlockeds, t.Subs squash unlockeds →
    wellsigned crypto constants.addVkey constants.tag squash.body squash.signature = true ∧
      ∃ cheques : List Unlocked, (cheques.map fun c => c.body.index).Nodup ∧
        (∀ c ∈ cheques, ¬squash.body.Covers c.body.index ∧
          ∃ t' ∈ ts ++ [t], t'.Proves crypto constants c) ∧
        t.target.stage.subbed ≤ squash.body.amount + (cheques.map fun c => c.body.amount).sum

/-- The counter and the useds of the datum tell the truth about a run, and the counter
stays within the evidence. -/
structure SubSafe (ts : List Transition) (s : Channel) : Prop where
  subbed : s.stage.subbed = subbedBy ts
  sorted : s.stage.useds.Pairwise (·.index < ·.index)
  backed : ∀ u ∈ s.stage.useds, Backed crypto constants ts u
  credited : ∀ pre t, pre ++ [t] <+: ts → Credited crypto constants pre t

/-- If the step is a sub, the excluded indexes of its squash increase. -/
def Transition.SquashSorted (t : Transition) : Prop :=
  ∀ squash unlockeds, t.Subs squash unlockeds → squash.body.exclude.Pairwise (· < ·)

/-- The excluded indexes of the squash of the last sub of a run increase. -/
def LastSquashSorted (ts : List Transition) : Prop :=
  ∀ pre t post, ts = pre ++ t :: post → (∀ t' ∈ post, ∀ squash unlockeds,
    ¬t'.Subs squash unlockeds) → t.SquashSorted

/-- The invariant of a run: the order of the useds depends on the squash of the last sub, and the
credit of a sub on its own squash, and on no other. -/
structure SubInv (ts : List Transition) (s : Channel) : Prop where
  subbed : s.stage.subbed = subbedBy ts
  backed : ∀ u ∈ s.stage.useds, Backed crypto constants ts u
  sorted : LastSquashSorted ts → s.stage.useds.Pairwise (·.index < ·.index)
  credited : ∀ pre t, pre ++ [t] <+: ts → t.SquashSorted → Credited crypto constants pre t

end Statements

variable {crypto : Crypto} {constants : Constants} {ts : List Transition} {t : Transition}
  {s : Channel}

/-! ### What one step can do -/

/-- Add and close leave the counter and the useds alone. -/
lemma accepted_cases (h : t.Accepted crypto constants) (hstep : t.step.BeforeRespond) :
    (t.target.stage.subbed = t.source.stage.subbed ∧ t.target.stage.useds = t.source.stage.useds ∧
        (t.step = .add ∨ t.step = .close)) ∨
      ∃ squash unlockeds amount, t.Subs squash unlockeds ∧
        Sub.account crypto t.bounds.upper constants.addVkey constants.tag t.source.stage.useds
          t.target.stage.useds squash unlockeds = some amount ∧
        t.target.stage.subbed = t.source.stage.subbed + t.withdrawn ∧
        t.target.stage.subbed ≤ amount := by
  obtain ⟨⟨valueIn, stageIn⟩, bounds, step, ⟨valueOut, stageOut⟩⟩ := t
  obtain ⟨vkey, h⟩ := h
  cases step with
  | add =>
    obtain ⟨⟨-, heq⟩, -⟩ := Add.do_eq_some.mp h
    obtain rfl : stageOut = stageIn := heq
    exact Or.inl ⟨rfl, rfl, Or.inl rfl⟩
  | close =>
    obtain ⟨⟨subbed, useds, elapseAt, upper, rfl, rfl, -⟩, -⟩ := Close.do_eq_some.mp h
    exact Or.inl ⟨rfl, rfl, Or.inr rfl⟩
  | sub squash unlockeds =>
    obtain ⟨subbedIn, usedsIn, subbedOut, usedsOut, rfl, rfl⟩ := Sub.stages_of_do h
    obtain ⟨⟨out, hout, hsubbed⟩, ⟨amount, haccount, hle⟩, -⟩ := Sub.do_eq_some.mp h
    refine Or.inr ⟨squash, unlockeds, amount, rfl, haccount, ?_, hle⟩
    simp only [Stage.subbed, Transition.withdrawn, hout, Option.getD_some]
    linarith
  | respond | unlock | expire => exact absurd hstep id

/-! ### What one step preserves -/

lemma Backed.mono {ts' : List Transition} {used : Used} (h : Backed crypto constants ts used)
    (hsub : ts ⊆ ts') : Backed crypto constants ts' used := by
  obtain ⟨t, ht, hrest⟩ := h
  exact ⟨t, hsub ht, hrest⟩

/-- Every used that a sub leaves in the datum is backed, by an earlier sub or by this one. -/
lemma backed_of_sub {squash : Squash} {unlockeds : List Unlocked} {amount : Amount}
    (hsub : t.Subs squash unlockeds)
    (haccount : Sub.account crypto t.bounds.upper constants.addVkey constants.tag
      t.source.stage.useds t.target.stage.useds squash unlockeds = some amount)
    (hbacked : ∀ u ∈ t.source.stage.useds, Backed crypto constants ts u) :
    ∀ u ∈ t.target.stage.useds, Backed crypto constants (ts ++ [t]) u := by
  obtain ⟨-, hproven, -, -⟩ := Sub.account_some haccount
  intro u hu
  by_cases hin : u ∈ t.source.stage.useds
  · exact (hbacked u hin).mono (List.subset_append_left _ _)
  · obtain ⟨cheque, hmem, hcheque, hused⟩ := (hproven u hu).resolve_left hin
    exact ⟨t, by simp, hu, hin, cheque, ⟨squash, unlockeds, hsub, hmem, hcheque⟩, hused⟩

/-- The indexes of the useds that a sub leaves in the datum increase when those that the
squash excludes do. -/
lemma sorted_of_sub {squash : Squash} {unlockeds : List Unlocked} {amount : Amount}
    {useds usedsOut : List Used} {bound : Timebound} {key : VerificationKey} {tag : Tag}
    (haccount : Sub.account crypto bound key tag useds usedsOut squash unlockeds = some amount)
    (hsorted : squash.body.exclude.Pairwise (· < ·)) :
    usedsOut.Pairwise (·.index < ·.index) := by
  obtain ⟨-, -, hadvance, -⟩ := Sub.account_some haccount
  have hcursor : squash.body.cursor.Ordered := hsorted
  exact List.pairwise_map.mp ((Cursor.advanceAll_isSome_iff hcursor).mp hadvance).1

/-- The useds of a sub stand for cheques that were proven in the run, so the counter is
within the squash and these. -/
lemma credited_of_sub {squash : Squash} {unlockeds : List Unlocked} {amount : Amount}
    (hsub : t.Subs squash unlockeds)
    (haccount : Sub.account crypto t.bounds.upper constants.addVkey constants.tag
      t.source.stage.useds t.target.stage.useds squash unlockeds = some amount)
    (hle : t.target.stage.subbed ≤ amount)
    (hbacked : ∀ u ∈ t.target.stage.useds, Backed crypto constants (ts ++ [t]) u)
    (hsorted : t.target.stage.useds.Pairwise (·.index < ·.index)) :
    Credited crypto constants ts t := by
  intro squash' unlockeds' hsub'
  obtain ⟨rfl, rfl⟩ : squash' = squash ∧ unlockeds' = unlockeds := by
    simpa using hsub'.symm.trans hsub
  obtain ⟨hsigned, -, ⟨c, hadvance⟩, rfl⟩ := Sub.account_some haccount
  -- one cheque for each used
  choose! cheque hcheque using fun u hu => show ∃ cheque : Unlocked, cheque.used = u ∧
      ∃ t' ∈ ts ++ [t], t'.Proves crypto constants cheque by
    obtain ⟨t', ht', -, -, cheque, hproves, hused⟩ := hbacked u hu
    exact ⟨cheque, hused, t', ht', hproves⟩
  have hindex : ∀ u ∈ t.target.stage.useds, (cheque u).body.index = u.index := fun u hu =>
    congrArg Used.index (hcheque u hu).1
  have hamount : ∀ u ∈ t.target.stage.useds, (cheque u).body.amount = u.amount := fun u hu =>
    congrArg Used.amount (hcheque u hu).1
  refine ⟨hsigned, t.target.stage.useds.map cheque, ?_, ?_, ?_⟩
  · -- distinct, since the useds are
    have hindexes : (t.target.stage.useds.map cheque).map (fun c => c.body.index) =
        t.target.stage.useds.map Used.index := by
      rw [List.map_map]
      exact List.map_congr_left hindex
    rw [hindexes]
    exact (List.pairwise_map.mpr hsorted).imp ne_of_lt
  · intro c hc
    obtain ⟨u, hu, rfl⟩ := List.mem_map.mp hc
    refine ⟨fun hcovers => hcovers ?_, (hcheque u hu).2⟩
    rw [hindex u hu]
    exact Cursor.ahead_of_mem_advanceAll hadvance _ (List.mem_map_of_mem hu)
  · -- worth what the useds are
    have hamounts : (t.target.stage.useds.map cheque).map (fun c => c.body.amount) =
        t.target.stage.useds.map Used.amount := by
      rw [List.map_map]
      exact List.map_congr_left hamount
    rw [hamounts]
    exact hle

/-- A step that is no sub leaves the last squash what it was. -/
lemma LastSquashSorted.init (h : LastSquashSorted (ts ++ [t]))
    (hnone : ∀ squash unlockeds, ¬t.Subs squash unlockeds) : LastSquashSorted ts := by
  rintro pre t' post rfl hpost
  refine h pre t' (post ++ [t]) (by simp) ?_
  exact List.forall_mem_append.mpr ⟨hpost, List.forall_mem_singleton.mpr hnone⟩

lemma LastSquashSorted.last (h : LastSquashSorted (ts ++ [t])) : t.SquashSorted :=
  h ts t [] rfl (by simp)

/-- An accepted step keeps the invariant. -/
lemma SubInv.step (h : SubInv crypto constants ts t.source)
    (haccepted : t.Accepted crypto constants) (hstep : t.step.BeforeRespond) :
    SubInv crypto constants (ts ++ [t]) t.target := by
  -- the credit of an earlier sub is not touched
  have hcredited : (t.SquashSorted → Credited crypto constants ts t) →
      ∀ pre t', pre ++ [t'] <+: ts ++ [t] → t'.SquashSorted → Credited crypto constants pre t' := by
    intro hlast pre t' hpre hsorted
    rcases List.prefix_concat_iff.mp hpre with heq | hpre
    · obtain ⟨rfl, rfl⟩ : pre = ts ∧ t' = t := by simpa using heq
      exact hlast hsorted
    · exact h.credited pre t' hpre hsorted
  rcases accepted_cases haccepted hstep with
    ⟨hsubbed, huseds, hkind⟩ | ⟨squash, unlockeds, amount, hsub, haccount, hsubbed, hle⟩
  · -- the step is no sub, and nothing changes
    have hnone : ∀ squash unlockeds, ¬t.Subs squash unlockeds := by
      intro squash unlockeds hsub
      rcases hkind with hkind | hkind <;> simp [Transition.Subs, hkind] at hsub
    refine ⟨?_, fun u hu => ?_, fun hsorted => huseds ▸ h.sorted (hsorted.init hnone),
      hcredited fun _ squash unlockeds hsub => absurd hsub (hnone _ _)⟩
    · rw [hsubbed, h.subbed, subbedBy_concat]
      rcases hkind with hkind | hkind <;> simp [hkind]
    · exact (h.backed u (huseds ▸ hu)).mono (List.subset_append_left _ _)
  · have hbacked := backed_of_sub hsub haccount h.backed
    have hsorted : t.SquashSorted → t.target.stage.useds.Pairwise (·.index < ·.index) :=
      fun hsorted => sorted_of_sub haccount (hsorted squash unlockeds hsub)
    refine ⟨?_, hbacked, fun hs => hsorted hs.last, hcredited fun hs => ?_⟩
    · rw [hsubbed, h.subbed, subbedBy_concat, show t.step = _ from hsub]
    · exact credited_of_sub hsub haccount hle hbacked (hsorted hs)

/-! ### What a run preserves -/

/-- Every run of add, sub and close steps keeps the invariant. -/
lemma subInv_of_run {value : Value} (hrun : Run crypto constants ⟨value, .opened 0 []⟩ ts s)
    (hsteps : ∀ t ∈ ts, t.step.BeforeRespond) : SubInv crypto constants ts s := by
  refine Trace.invariant_of_forall (P := fun ts s => SubInv crypto constants ts s) ?_ ?_ hrun
    hsteps
  · constructor <;> simp [Stage.subbed, Stage.useds, subbedBy]
  · rintro ts _ t _ h hstep ⟨rfl, rfl, haccepted⟩
    exact h.step haccepted hstep

/-- After every run of add, sub and close steps from an empty counter, the counter is what
the subs took out and every used is backed.  When the squash of the last sub excludes an increasing
list, the useds increase too; and after each sub whose own squash does, whatever the other squashes
are, the counter is within the evidence: no cheque counts twice, or both by itself and in the
squash. -/
theorem sub_safety {value : Value} (hrun : Run crypto constants ⟨value, .opened 0 []⟩ ts s)
    (hsteps : ∀ t ∈ ts, t.step.BeforeRespond) :
    s.stage.subbed = subbedBy ts ∧ (∀ u ∈ s.stage.useds, Backed crypto constants ts u) ∧
      (LastSquashSorted ts → s.stage.useds.Pairwise (·.index < ·.index)) ∧
      ∀ pre t, pre ++ [t] <+: ts → t.SquashSorted → Credited crypto constants pre t := by
  have h := subInv_of_run hrun hsteps
  exact ⟨h.subbed, h.backed, h.sorted, h.credited⟩

/-- A sub of 5 ada on each copy of one unlocked cheque of index 3. -/
def sampleSub (squash : SquashBody) (copies : ℕ) : Transition where
  source := ⟨ada 22_000_000, .opened 0 []⟩
  bounds := ⟨.negativeInfinity, .finite 1_765_889_060_000⟩
  step := .sub ⟨squash, List.replicate 64 0⟩ (List.replicate copies
    ⟨⟨3, 5_000_000, 1_765_889_120_000, List.replicate 32 0⟩, List.replicate 64 0⟩)
  target := ⟨ada (22_000_000 - copies * 5_000_000),
    .opened (copies * 5_000_000) (List.replicate copies ⟨3, 5_000_000⟩)⟩

/-- Constants with keys of zero bytes, and a close period of a day. -/
def sampleConstants : Constants := ⟨[], List.replicate 32 0, List.replicate 32 0, 86_400_000⟩

lemma run_sampleSub (squash : SquashBody) (copies : ℕ)
    (h : (sampleSub squash copies).Accepted Crypto.noCrypto sampleConstants) :
    Run Crypto.noCrypto sampleConstants ⟨ada 22_000_000, .opened 0 []⟩
      [sampleSub squash copies] (sampleSub squash copies).target :=
  Trace.snoc Trace.nil ⟨rfl, rfl, h⟩

theorem sub_safety_one_sub :
    SubSafe Crypto.noCrypto sampleConstants [sampleSub ⟨0, 0, []⟩ 1]
      (sampleSub ⟨0, 0, []⟩ 1).target := by
  have hrun := run_sampleSub ⟨0, 0, []⟩ 1 ⟨List.replicate 32 0, by decide⟩
  have hsorted : (sampleSub ⟨0, 0, []⟩ 1).SquashSorted := by
    intro squash unlockeds hsub
    obtain ⟨rfl, -⟩ : squash = ⟨⟨0, 0, []⟩, List.replicate 64 0⟩ ∧ _ := by
      simpa [Transition.Subs, sampleSub, eq_comm] using hsub
    exact List.Pairwise.nil
  have hmem : ∀ {t}, t ∈ [sampleSub ⟨0, 0, []⟩ 1] → t.SquashSorted := fun ht =>
    (List.mem_singleton.mp ht).symm ▸ hsorted
  obtain ⟨hsubbed, hbacked, huseds, hcredited⟩ :=
    sub_safety hrun (by simp [sampleSub, Cont.BeforeRespond])
  refine ⟨hsubbed, huseds fun pre t post heq _ => hmem (heq ▸ by simp), hbacked,
    fun pre t hpre => hcredited pre t hpre (hmem (hpre.subset (by simp)))⟩

/-- On a squash that excludes an index twice, the cheque of that index is credited twice. -/
theorem sub_unsafe_on_repeated_exclude :
    Run Crypto.noCrypto sampleConstants ⟨ada 22_000_000, .opened 0 []⟩
        [sampleSub ⟨0, 4, [3, 3]⟩ 2] (sampleSub ⟨0, 4, [3, 3]⟩ 2).target ∧
      (sampleSub ⟨0, 4, [3, 3]⟩ 2).step.BeforeRespond ∧
      ¬SubSafe Crypto.noCrypto sampleConstants [sampleSub ⟨0, 4, [3, 3]⟩ 2]
        (sampleSub ⟨0, 4, [3, 3]⟩ 2).target := by
  refine ⟨run_sampleSub _ _ ⟨List.replicate 32 0, by decide⟩, trivial, fun h => ?_⟩
  exact absurd h.sorted (by decide)

end Konduit.Kernel
