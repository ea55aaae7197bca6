import Mathlib.Algebra.BigOperators.Group.List.Basic
import Mathlib.Data.List.Perm.Subperm
import Konduit.Kernel.SubRuns
import Konduit.Kernel.RespondedRuns

/-!
# The life of a channel

Runs of a channel through any steps with a continuing output, from its opening on.  Adds and
subs come first, then one close, one respond, and unlocks and expires.  All that the adaptor
takes out over the run is accounted for by one squash and cheques that it does not cover, each
counted once: the useds, the unlocked cheques of the respond and the pendings that were
unlocked.  Respond compares the wrong sum, so what it takes itself is not (`life_safety`).
-/

open Lib

namespace Konduit.Kernel

/-! ### What the adaptor takes and shows -/

namespace Transition

/-- The lovelace that the adaptor takes by a step. -/
def adaptorWithdrawn (t : Transition) : Amount :=
  match t.step with
  | .sub _ _ | .respond _ _ | .unlock _ => t.withdrawn
  | _ => 0

/-- The lovelace that a respond takes. -/
def respondWithdrawn (t : Transition) : Amount :=
  match t.step with
  | .respond _ _ => t.withdrawn
  | _ => 0

end Transition

/-- The lovelace that the adaptor takes over a run. -/
def adaptorWithdrawnBy (ts : List Transition) : Amount := (ts.map Transition.adaptorWithdrawn).sum

/-- The lovelace that the responds of a run take. -/
def respondWithdrawnBy (ts : List Transition) : Amount := (ts.map Transition.respondWithdrawn).sum

/-- The step carries the squash. -/
def Cont.Squashes : Cont → Squash → Prop
  | .sub squash _, squash' | .respond squash _, squash' => squash = squash'
  | .add, _ | .close, _ | .unlock _, _ | .expire _, _ => False

/-- The step carries the secret of the cheque. -/
def Cont.Shows : Cont → Unlocked → Prop
  | .sub _ unlockeds, cheque => cheque ∈ unlockeds
  | .respond _ cheques, cheque => .unlockedCheque cheque.body cheque.signature ∈ cheques
  | .unlock unpends, cheque => cheque.body.latch ∈ unpends
  | .add, _ | .close, _ | .expire _, _ => False

/-- What a squash and unlocked cheques are worth together. -/
def worth (squash : Squash) (cheques : List Unlocked) : Amount :=
  squash.body.amount + (cheques.map fun c => c.body.amount).sum

/-- The steps of the run show the cheque, in time. -/
def ShownBy (crypto : Crypto) (constants : Constants) (ts : List Transition) (cheque : Unlocked) :
    Prop :=
  ∃ t ∈ ts, t.step.Shows cheque ∧
    cheque.Proven crypto t.bounds.upper constants.addVkey constants.tag

/-- A squash of the run, with unlocked cheques of distinct indexes that it does not cover, each
proven by a step of the run in time. -/
structure Shown (crypto : Crypto) (constants : Constants) (ts : List Transition) (squash : Squash)
    (cheques : List Unlocked) : Prop where
  carried : ∃ t ∈ ts, t.step.Squashes squash
  signed : wellsigned crypto constants.addVkey constants.tag squash.body squash.signature = true
  distinct : (cheques.map fun c => c.body.index).Nodup
  uncovered : ∀ c ∈ cheques, ¬squash.body.Covers c.body.index
  proven : ∀ c ∈ cheques, ShownBy crypto constants ts c

/-- The steps of an opened channel that leave it open. -/
def Cont.OnOpened : Cont → Prop
  | .add | .sub _ _ => True
  | .close | .respond _ _ | .unlock _ | .expire _ => False

/-- The steps that lead to a stage: adds and subs, then one close, then one respond, then unlocks
and expires. -/
def Phases (ts : List Transition) : Stage → Prop
  | .opened _ _ => ∀ t ∈ ts, t.step.OnOpened
  | .closed _ _ _ => ∃ pre t, ts = pre ++ [t] ∧ (∀ t ∈ pre, t.step.OnOpened) ∧ t.step = .close
  | .responded _ _ => ∃ pre close respond post squash cheques,
      ts = pre ++ close :: respond :: post ∧ (∀ t ∈ pre, t.step.OnOpened) ∧
        close.step = .close ∧ respond.step = .respond squash cheques ∧
        ∀ t ∈ post, t.step.OnPends

/-- What holds of a channel after any run from its opening. -/
structure LifeSafe (crypto : Crypto) (constants : Constants) (ts : List Transition)
    (s : Channel) : Prop where
  phases : Phases ts s.stage
  /-- The adaptor has taken nothing, or no more than it showed evidence for, but for twice what
  a respond took. -/
  taken : adaptorWithdrawnBy ts = 0 ∨ ∃ squash cheques, Shown crypto constants ts squash cheques ∧
    adaptorWithdrawnBy ts ≤ worth squash cheques + 2 * respondWithdrawnBy ts

/-- The excluded indexes of every squash of the run increase. -/
def AllSquashesSorted (ts : List Transition) : Prop :=
  ∀ t ∈ ts, ∀ squash, t.step.Squashes squash → squash.body.exclude.Pairwise (· < ·)

variable {crypto : Crypto} {constants : Constants} {ts : List Transition} {t : Transition}
  {s s' : Channel}

/-! ### The order of the steps -/

/-- From which stage to which an accepted step leads. -/
lemma stages_of_accepted (h : t.Accepted crypto constants) :
    (t.step.OnOpened ∧ ∃ subbed useds subbed' useds', t.source.stage = .opened subbed useds ∧
        t.target.stage = .opened subbed' useds') ∨
      (t.step = .close ∧ ∃ subbed useds elapseAt, t.source.stage = .opened subbed useds ∧
        t.target.stage = .closed subbed useds elapseAt) ∨
      (∃ squash cheques, t.step = .respond squash cheques ∧
        ∃ subbed useds elapseAt pAmount pends, t.source.stage = .closed subbed useds elapseAt ∧
          t.target.stage = .responded pAmount pends) ∨
      (t.step.OnPends ∧ ∃ pAmount pends pAmount' pends',
        t.source.stage = .responded pAmount pends ∧
          t.target.stage = .responded pAmount' pends') := by
  obtain ⟨⟨valueIn, stageIn⟩, bounds, step, ⟨valueOut, stageOut⟩⟩ := t
  obtain ⟨vkey, h⟩ := h
  cases step with
  | add =>
    obtain ⟨⟨⟨subbed, useds, rfl⟩, heq⟩, -⟩ := Add.do_eq_some.mp h
    obtain rfl : stageOut = .opened subbed useds := heq
    exact Or.inl ⟨trivial, subbed, useds, subbed, useds, rfl, rfl⟩
  | sub squash unlockeds =>
    exact Or.inl ⟨trivial, Sub.stages_of_do h⟩
  | close =>
    obtain ⟨⟨subbed, useds, elapseAt, -, rfl, rfl, -⟩, -⟩ := Close.do_eq_some.mp h
    exact Or.inr (Or.inl ⟨rfl, subbed, useds, elapseAt, rfl, rfl⟩)
  | respond squash cheques =>
    exact Or.inr (Or.inr (Or.inl ⟨squash, cheques, rfl, Respond.stages_of_do h⟩))
  | unlock unpends => exact Or.inr (Or.inr (Or.inr ⟨trivial, Unlock.stages_of_do h⟩))
  | expire unpends => exact Or.inr (Or.inr (Or.inr ⟨trivial, Expire.stages_of_do h⟩))

/-- An accepted step comes where it may. -/
lemma Phases.step (h : Phases ts t.source.stage) (haccepted : t.Accepted crypto constants) :
    Phases (ts ++ [t]) t.target.stage := by
  rcases stages_of_accepted haccepted with
    ⟨hstep, _, _, _, _, hsource, htarget⟩ | ⟨hstep, _, _, _, hsource, htarget⟩ |
      ⟨squash, cheques, hstep, _, _, _, _, _, hsource, htarget⟩ |
      ⟨hstep, _, _, _, _, hsource, htarget⟩
  · rw [hsource] at h
    rw [htarget]
    exact List.forall_mem_append.mpr ⟨h, List.forall_mem_singleton.mpr hstep⟩
  · rw [hsource] at h
    rw [htarget]
    exact ⟨ts, t, rfl, h, hstep⟩
  · rw [hsource] at h
    rw [htarget]
    obtain ⟨pre, close, rfl, hpre, hclose⟩ := h
    exact ⟨pre, close, t, [], squash, cheques, by simp, hpre, hclose, hstep, by simp⟩
  · rw [hsource] at h
    rw [htarget]
    obtain ⟨pre, close, respond, post, squash, cheques, rfl, hpre, hclose, hrespond, hpost⟩ := h
    refine ⟨pre, close, respond, post ++ [t], squash, cheques, by simp, hpre, hclose, hrespond, ?_⟩
    exact List.forall_mem_append.mpr ⟨hpost, List.forall_mem_singleton.mpr hstep⟩

lemma phases_of_run {value : Value} (hrun : Run crypto constants ⟨value, .opened 0 []⟩ ts s) :
    Phases ts s.stage := by
  refine Trace.invariant (P := fun ts s => Phases ts s.stage) (by simp [Phases]) ?_ hrun
  rintro ts _ t _ - h ⟨rfl, rfl, haccepted⟩
  exact h.step haccepted

/-- A run up to a respond, the respond, and the run from there. -/
structure Responds (crypto : Crypto) (constants : Constants) (s : Channel) (ts : List Transition)
    (s' : Channel) (pre : List Transition) (t : Transition) (post : List Transition) :
    Prop where
  eq : ts = pre ++ t :: post
  before : Run crypto constants s pre t.source
  beforeRespond : ∀ t ∈ pre, t.step.BeforeRespond
  isRespond : ∃ squash cheques, t.step = .respond squash cheques
  accepted : t.Accepted crypto constants
  after : Run crypto constants t.target post s'
  onPends : ∀ t ∈ post, t.step.OnPends

lemma Cont.OnOpened.beforeRespond {step : Cont} (h : step.OnOpened) : step.BeforeRespond := by
  cases step with
  | add | sub => trivial
  | close | respond | unlock | expire => exact absurd h id

/-- A run has no respond, or one. -/
lemma beforeRespond_or_responds {value : Value}
    (hrun : Run crypto constants ⟨value, .opened 0 []⟩ ts s) :
    ((∀ t ∈ ts, t.step.BeforeRespond) ∧ ∀ pAmount pends, s.stage ≠ .responded pAmount pends) ∨
      ((∃ pAmount pends, s.stage = .responded pAmount pends) ∧
        ∃ pre t post, Responds crypto constants ⟨value, .opened 0 []⟩ ts s pre t post) := by
  induction hrun with
  | nil => exact Or.inl ⟨by simp, by simp⟩
  | @snoc ts s s' t hrun hstep ih =>
    obtain ⟨rfl, rfl, haccepted⟩ := hstep
    rcases stages_of_accepted haccepted with
      ⟨hstep, _, _, _, _, hsource, htarget⟩ | ⟨hstep, _, _, _, hsource, htarget⟩ |
        ⟨squash, cheques, hstep, _, _, _, _, _, hsource, htarget⟩ |
        ⟨hstep, _, _, _, _, hsource, htarget⟩
    · obtain ⟨hts, -⟩ := ih.resolve_right (by rintro ⟨⟨_, _, heq⟩, -⟩; simp [hsource] at heq)
      refine Or.inl ⟨?_, by simp [htarget]⟩
      exact List.forall_mem_append.mpr ⟨hts, List.forall_mem_singleton.mpr hstep.beforeRespond⟩
    · obtain ⟨hts, -⟩ := ih.resolve_right (by rintro ⟨⟨_, _, heq⟩, -⟩; simp [hsource] at heq)
      refine Or.inl ⟨?_, by simp [htarget]⟩
      refine List.forall_mem_append.mpr ⟨hts, List.forall_mem_singleton.mpr ?_⟩
      rw [hstep]
      trivial
    · obtain ⟨hts, -⟩ := ih.resolve_right (by rintro ⟨⟨_, _, heq⟩, -⟩; simp [hsource] at heq)
      exact Or.inr ⟨⟨_, _, htarget⟩, ts, t, [], rfl, hrun, hts, ⟨squash, cheques, hstep⟩,
        haccepted, Trace.nil, by simp⟩
    · obtain ⟨-, pre, t₀, post, h⟩ := ih.resolve_left (by rintro ⟨-, hne⟩; exact hne _ _ hsource)
      refine Or.inr ⟨⟨_, _, htarget⟩, pre, t₀, post ++ [t], ?_, h.before, h.beforeRespond,
        h.isRespond, h.accepted, Trace.snoc h.after ⟨rfl, rfl, haccepted⟩, ?_⟩
      · rw [h.eq, List.append_assoc, List.cons_append]
      · exact List.forall_mem_append.mpr ⟨h.onPends, List.forall_mem_singleton.mpr hstep⟩

/-! ### What the adaptor takes by subs -/

lemma Shown.mono {ts' : List Transition} {squash : Squash} {cheques : List Unlocked}
    (h : Shown crypto constants ts squash cheques) (hsub : ts ⊆ ts') :
    Shown crypto constants ts' squash cheques := by
  obtain ⟨t, ht, hcarried⟩ := h.carried
  refine ⟨⟨t, hsub ht, hcarried⟩, h.signed, h.distinct, h.uncovered, fun c hc => ?_⟩
  obtain ⟨t, ht, hproven⟩ := h.proven c hc
  exact ⟨t, hsub ht, hproven⟩

lemma Transition.Proves.shows {cheque : Unlocked} (h : t.Proves crypto constants cheque) :
    t.step.Shows cheque ∧
      cheque.Proven crypto t.bounds.upper constants.addVkey constants.tag := by
  obtain ⟨squash, unlockeds, hsub, hmem, hproven⟩ := h
  rw [show t.step = _ from hsub]
  exact ⟨hmem, hproven⟩

/-- What a sub is credited for, the run has shown. -/
lemma shown_of_credited {squash : Squash} {unlockeds : List Unlocked}
    (h : Credited crypto constants ts t) (hsub : t.Subs squash unlockeds) :
    ∃ cheques, Shown crypto constants (ts ++ [t]) squash cheques ∧
      t.target.stage.subbed ≤ worth squash cheques := by
  obtain ⟨hsigned, cheques, hdistinct, hcheques, hle⟩ := h squash unlockeds hsub
  refine ⟨cheques, ⟨⟨t, by simp, ?_⟩, hsigned, hdistinct, fun c hc => (hcheques c hc).1, ?_⟩, hle⟩
  · rw [show t.step = _ from hsub]
    rfl
  · intro c hc
    obtain ⟨t', ht', hproves⟩ := (hcheques c hc).2
    exact ⟨t', ht', hproves.shows⟩

lemma AllSquashesSorted.init (h : AllSquashesSorted (ts ++ [t])) : AllSquashesSorted ts :=
  fun t' ht' => h t' (by simp [ht'])

lemma AllSquashesSorted.squashSorted (h : AllSquashesSorted ts) (ht : t ∈ ts) :
    t.SquashSorted := by
  intro squash unlockeds hsub
  refine h t ht squash ?_
  rw [show t.step = _ from hsub]
  rfl

/-- Before a respond, what the subs have taken was shown. -/
lemma taken_of_beforeRespond {value : Value}
    (hrun : Run crypto constants ⟨value, .opened 0 []⟩ ts s)
    (hsteps : ∀ t ∈ ts, t.step.BeforeRespond) (hsorted : AllSquashesSorted ts) :
    subbedBy ts = 0 ∨ ∃ squash cheques, Shown crypto constants ts squash cheques ∧
      subbedBy ts ≤ worth squash cheques := by
  induction hrun with
  | nil => exact Or.inl rfl
  | @snoc ts s s' t hrun hstep ih =>
    have hinv := subInv_of_run (Trace.snoc hrun hstep) hsteps
    obtain ⟨hts, ht⟩ := List.forall_mem_append.mp hsteps
    have hbefore := ih hts hsorted.init
    obtain ⟨rfl, rfl, haccepted⟩ := hstep
    rcases accepted_cases haccepted (ht t (by simp)) with
      ⟨-, -, hkind⟩ | ⟨squash, unlockeds, -, hsub, -⟩
    · -- nothing is taken, and the evidence of before still stands
      have hsame : subbedBy (ts ++ [t]) = subbedBy ts := by
        rw [subbedBy_concat]
        rcases hkind with hkind | hkind <;> simp [hkind]
      rw [hsame]
      refine hbefore.imp id ?_
      rintro ⟨squash, cheques, hshown, hle⟩
      exact ⟨squash, cheques, hshown.mono (List.subset_append_left _ _), hle⟩
    · have hcredited :=
        hinv.credited ts t (List.prefix_refl _) (hsorted.squashSorted (by simp))
      obtain ⟨cheques, hshown, hle⟩ := shown_of_credited hcredited hsub
      exact Or.inr ⟨squash, cheques, hshown, hinv.subbed ▸ hle⟩

/-! ### What a respond and the unlocks after it add -/

namespace Respond

/-- The unlocked cheques. -/
def unlockedsOf : List Cheque → List Unlocked
  | [] => []
  | .unlockedCheque body signature :: cheques => ⟨body, signature⟩ :: unlockedsOf cheques
  | .lockedCheque _ _ :: cheques => unlockedsOf cheques

/-- The locked cheques, as they would be unlocked by no secret. -/
def lockedsOf : List Cheque → List Unlocked
  | [] => []
  | .unlockedCheque _ _ :: cheques => lockedsOf cheques
  | .lockedCheque body signature :: cheques => ⟨body, signature⟩ :: lockedsOf cheques

/-- The pending that a locked cheque becomes. -/
def pendingOf (cheque : Unlocked) : Pending :=
  ⟨cheque.body.amount, cheque.body.timeout, cheque.body.latch⟩

variable {useds : List Used} {cheques : List Cheque}

lemma mem_unlockedsOf {c : Unlocked} :
    c ∈ unlockedsOf cheques ↔ .unlockedCheque c.body c.signature ∈ cheques := by
  obtain ⟨body, signature⟩ := c
  induction cheques with
  | nil => simp [unlockedsOf]
  | cons cheque cheques ih => cases cheque <;> simp [unlockedsOf, ih]

lemma mem_lockedsOf {c : Unlocked} :
    c ∈ lockedsOf cheques ↔ .lockedCheque c.body c.signature ∈ cheques := by
  obtain ⟨body, signature⟩ := c
  induction cheques with
  | nil => simp [lockedsOf]
  | cons cheque cheques ih => cases cheque <;> simp [lockedsOf, ih]

lemma pendingsOf_eq_map : pendingsOf cheques = (lockedsOf cheques).map pendingOf := by
  induction cheques with
  | nil => rfl
  | cons cheque cheques ih => cases cheque <;> simp [pendingsOf, lockedsOf, pendingOf, ih]

lemma unlockedAmount_eq_sum :
    unlockedAmount cheques = ((unlockedsOf cheques).map fun c => c.body.amount).sum := by
  induction cheques with
  | nil => rfl
  | cons cheque cheques ih => cases cheque <;> simp [unlockedAmount, unlockedsOf, ih]

lemma index_perm : (cheques.map Cheque.index).Perm
    ((unlockedsOf cheques).map (fun c => c.body.index) ++
      (lockedsOf cheques).map fun c => c.body.index) := by
  induction cheques with
  | nil => simp [unlockedsOf, lockedsOf]
  | cons cheque cheques ih =>
    cases cheque with
    | unlockedCheque body signature => exact ih.cons body.index
    | lockedCheque body signature => exact (ih.cons body.index).trans List.perm_middle.symm

/-- The useds that are taken and the cheques are what is visited. -/
lemma visits_perm : (visits useds cheques).Perm
    ((taken useds cheques).map Used.index ++ cheques.map Cheque.index) := by
  induction cheques generalizing useds with
  | nil => simp [visits, taken]
  | cons cheque cheques ih =>
    rw [visits, taken, List.map_append, List.map_cons, List.append_assoc]
    refine List.Perm.append_left _ (((@ih (beyond useds cheque.index)).cons cheque.index).trans ?_)
    exact List.perm_middle.symm

end Respond

/-- The cheque with the secret in place of the lock. -/
def Unlocked.withSecret (cheque : Unlocked) (secret : Secret) : Unlocked :=
  { cheque with body := { cheque.body with latch := secret } }

lemma mem_of_mem_freed {unpends : List Unpend} {pends : List Pending} {x : Unpend × Pending}
    (h : x ∈ Pends.freed unpends pends) : x.1 ∈ unpends := by
  induction unpends generalizing pends with
  | nil => cases pends <;> simp [Pends.freed] at h
  | cons unpend unpends ih =>
    cases pends with
    | nil => cases unpend <;> simp [Pends.freed] at h
    | cons pend pends =>
      cases unpend with
      | nil => exact List.mem_cons_of_mem _ (ih h)
      | cons b bs =>
        rcases List.mem_cons.mp h with rfl | h
        · exact List.mem_cons_self
        · exact List.mem_cons_of_mem _ (ih h)

/-- What an unlock takes out was locked by a secret that it carries, in time. -/
lemma exists_secret {pend : Pending} (honly : ∀ t ∈ ts, t.OnlyFrees crypto)
    (h : pend ∈ unlockedBy ts) :
    ∃ t ∈ ts, ∃ unpends secret, t.step = .unlock unpends ∧ secret ∈ unpends ∧
      (crypto.sha256 secret).1 = pend.lock ∧ secret.length = 32 ∧
        ∃ upper, t.bounds.upper = .finite upper ∧ upper ≤ pend.timeout := by
  obtain ⟨t, ht, hpend⟩ := List.mem_flatMap.mp h
  have hmay := (honly t ht).mayFree
  rw [Transition.unlocked] at hpend
  split at hpend
  case h_2 => simp at hpend
  case h_1 unpends hstep =>
    obtain ⟨x, hx, rfl⟩ := List.mem_map.mp hpend
    simp only [Transition.freed, Transition.MayFree, hstep] at hmay
    exact ⟨t, ht, unpends, x.1, hstep, mem_of_mem_freed hx, hmay x hx⟩

/-- What the unlocks of a run take out is some of what it frees. -/
lemma unlockedBy_sublist (ts : List Transition) : (unlockedBy ts).Sublist (freedBy ts) := by
  induction ts with
  | nil => exact List.Sublist.refl _
  | cons t ts ih =>
    refine List.Sublist.append ?_ ih
    obtain ⟨source, bounds, step, target⟩ := t
    cases step with
    | unlock unpends => exact List.Sublist.refl _
    | add | sub | close | respond | expire => exact List.nil_sublist _

/-- The pendings that a run unlocks are those of some of the locked cheques. -/
lemma exists_lockeds {cheques : List Cheque}
    (h : RespondedSafe crypto constants (Respond.pendingsOf cheques) ts s) :
    ∃ lockeds : List Unlocked, lockeds.Sublist (Respond.lockedsOf cheques) ∧
      (lockeds.map Respond.pendingOf).Perm (unlockedBy ts) := by
  have hsub : (unlockedBy ts).Subperm ((Respond.lockedsOf cheques).map Respond.pendingOf) := by
    rw [← Respond.pendingsOf_eq_map]
    refine (unlockedBy_sublist ts).subperm.trans ?_
    exact (List.sublist_append_right s.stage.pends (freedBy ts)).subperm.trans h.leaves.subperm
  obtain ⟨l, hperm, hl⟩ := hsub
  obtain ⟨lockeds, hlockeds, rfl⟩ := List.sublist_map_iff.mp hl
  exact ⟨lockeds, hlockeds, hperm⟩

/-! ### What the adaptor takes -/

lemma adaptorWithdrawnBy_append (ts ts' : List Transition) :
    adaptorWithdrawnBy (ts ++ ts') = adaptorWithdrawnBy ts + adaptorWithdrawnBy ts' := by
  simp [adaptorWithdrawnBy]

lemma respondWithdrawnBy_append (ts ts' : List Transition) :
    respondWithdrawnBy (ts ++ ts') = respondWithdrawnBy ts + respondWithdrawnBy ts' := by
  simp [respondWithdrawnBy]

lemma respondWithdrawnBy_eq_zero (h : ∀ t ∈ ts, t.step.BeforeRespond ∨ t.step.OnPends) :
    respondWithdrawnBy ts = 0 := by
  refine List.sum_eq_zero (List.forall_mem_map.mpr fun t ht => ?_)
  have hstep := h t ht
  obtain ⟨source, bounds, step, target⟩ := t
  cases step with
  | respond => exact absurd hstep (by simp [Cont.BeforeRespond, Cont.OnPends])
  | add | sub | close | unlock | expire => rfl

lemma adaptorWithdrawnBy_of_beforeRespond (h : ∀ t ∈ ts, t.step.BeforeRespond) :
    adaptorWithdrawnBy ts = subbedBy ts := by
  induction ts with
  | nil => rfl
  | cons t ts ih =>
    obtain ⟨ht, hts⟩ := List.forall_mem_cons.mp h
    obtain ⟨source, bounds, step, target⟩ := t
    have hrest := ih hts
    rw [subbedBy, ← hrest]
    cases step with
    | add | sub | close => rfl
    | respond | unlock | expire => exact absurd ht id

lemma adaptorWithdrawnBy_of_onPends (h : ∀ t ∈ ts, t.step.OnPends) :
    adaptorWithdrawnBy ts = unlockWithdrawnBy ts := by
  refine congrArg List.sum (List.map_congr_left fun t ht => ?_)
  have hstep := h t ht
  obtain ⟨source, bounds, step, target⟩ := t
  cases step with
  | unlock | expire => rfl
  | add | sub | close | respond => exact absurd hstep id

/-- There is a proven cheque for each used that is backed. -/
lemma exists_cheques_of_backed {useds : List Used} (h : ∀ u ∈ useds, Backed crypto constants ts u) :
    ∃ cheques : List Unlocked, cheques.map Unlocked.used = useds ∧
      ∀ c ∈ cheques, ∃ t ∈ ts, t.Proves crypto constants c := by
  induction useds with
  | nil => exact ⟨[], rfl, by simp⟩
  | cons u useds ih =>
    obtain ⟨hu, huseds⟩ := List.forall_mem_cons.mp h
    obtain ⟨cheques, hmap, hproves⟩ := ih huseds
    obtain ⟨t, ht, -, -, cheque, hcheque, hused⟩ := hu
    refine ⟨cheque :: cheques, by rw [List.map_cons, hmap, hused], ?_⟩
    exact List.forall_mem_cons.mpr ⟨⟨t, ht, hcheque⟩, hproves⟩

/-- Each locked cheque whose pending is unlocked was shown with its secret. -/
lemma exists_shown_of_lockeds {lockeds : List Unlocked} (honly : ∀ t ∈ ts, t.OnlyFrees crypto)
    (hsigned : ∀ c ∈ lockeds,
      wellsigned crypto constants.addVkey constants.tag c.body c.signature = true)
    (hunlocked : ∀ c ∈ lockeds, Respond.pendingOf c ∈ unlockedBy ts) :
    ∃ cheques : List Unlocked, cheques.map Unlocked.used = lockeds.map Unlocked.used ∧
      ∀ c ∈ cheques, ShownBy crypto constants ts c := by
  induction lockeds with
  | nil => exact ⟨[], rfl, by simp⟩
  | cons c lockeds ih =>
    obtain ⟨hc, hlockeds⟩ := List.forall_mem_cons.mp hsigned
    obtain ⟨hpend, hpends⟩ := List.forall_mem_cons.mp hunlocked
    obtain ⟨cheques, hmap, hshown⟩ := ih hlockeds hpends
    obtain ⟨t, ht, unpends, secret, hstep, hmem, hlock, hlength, htime⟩ := exists_secret honly hpend
    refine ⟨c.withSecret secret :: cheques, by rw [List.map_cons, List.map_cons, hmap]; rfl, ?_⟩
    refine List.forall_mem_cons.mpr ⟨⟨t, ht, ?_, ?_, hlength, htime⟩, hshown⟩
    · rw [hstep]
      exact hmem
    · -- under its lock the secret gives the body that was signed
      have hbody : (c.withSecret secret).body.locked crypto = c.body := by
        rw [ChequeBody.locked]
        simp only [Unlocked.withSecret, hlock, Respond.pendingOf]
      rw [hbody]
      exact hc

lemma map_index_of_used {cheques cheques' : List Unlocked}
    (h : cheques.map Unlocked.used = cheques'.map Unlocked.used) :
    cheques.map (fun c => c.body.index) = cheques'.map fun c => c.body.index := by
  have hindex := congrArg (List.map Used.index) h
  rwa [List.map_map, List.map_map] at hindex

lemma sum_amount_of_used {cheques cheques' : List Unlocked}
    (h : cheques.map Unlocked.used = cheques'.map Unlocked.used) :
    (cheques.map fun c => c.body.amount).sum = (cheques'.map fun c => c.body.amount).sum := by
  have hamount := congrArg (List.map Used.amount) h
  rw [List.map_map, List.map_map] at hamount
  exact congrArg List.sum hamount

/-- Subbed, unlocked and later unlocked cheques have indexes that the respond visits. -/
lemma index_subperm_visits {useds : List Used} {cheques : List Cheque}
    {subbeds lockeds unlocks : List Unlocked}
    (hsubbeds : subbeds.map Unlocked.used = Respond.taken useds cheques)
    (hlockeds : lockeds.Sublist (Respond.lockedsOf cheques))
    (hunlocks : unlocks.map Unlocked.used = lockeds.map Unlocked.used) :
    ((subbeds ++ (Respond.unlockedsOf cheques ++ unlocks)).map fun c => c.body.index).Subperm
      (Respond.visits useds cheques) := by
  have hsubbedsIndex : subbeds.map (fun c => c.body.index) =
      (Respond.taken useds cheques).map Used.index := by
    rw [← hsubbeds, List.map_map]
    rfl
  rw [List.map_append, List.map_append, hsubbedsIndex, map_index_of_used hunlocks]
  refine List.Subperm.trans ?_ (Respond.visits_perm.trans
    (Respond.index_perm.append_left _)).symm.subperm
  exact (((hlockeds.map _).append_left _).append_left _).subperm

/-- The adaptor takes by the subs, by the respond, and by the unlocks after it. -/
lemma Responds.adaptorWithdrawnBy_eq {start : Channel} {pre post : List Transition}
    (h : Responds crypto constants start ts s pre t post) :
    adaptorWithdrawnBy ts = subbedBy pre + t.withdrawn + unlockWithdrawnBy post := by
  obtain ⟨squash, cheques, hstep⟩ := h.isRespond
  rw [h.eq, adaptorWithdrawnBy_append, adaptorWithdrawnBy_of_beforeRespond h.beforeRespond,
    ← List.singleton_append, adaptorWithdrawnBy_append,
    adaptorWithdrawnBy_of_onPends h.onPends, adaptorWithdrawnBy, List.map_singleton,
    List.sum_singleton, Transition.adaptorWithdrawn, hstep]
  ring

lemma Responds.respondWithdrawnBy_eq {start : Channel} {pre post : List Transition}
    (h : Responds crypto constants start ts s pre t post) : respondWithdrawnBy ts = t.withdrawn := by
  obtain ⟨squash, cheques, hstep⟩ := h.isRespond
  rw [h.eq, respondWithdrawnBy_append,
    respondWithdrawnBy_eq_zero fun t ht => Or.inl (h.beforeRespond t ht),
    ← List.singleton_append, respondWithdrawnBy_append,
    respondWithdrawnBy_eq_zero fun t ht => Or.inr (h.onPends t ht), respondWithdrawnBy,
    List.map_singleton, List.sum_singleton, Transition.respondWithdrawn, hstep]
  ring

/-- What a respond and the unlocks after it take: all but the respond's own was shown, as
cheques that are subbed, unlocked in the respond, or unlocked later. -/
lemma Responds.taken {value : Value} {pre post : List Transition}
    (h : Responds crypto constants ⟨value, .opened 0 []⟩ ts s pre t post)
    (hsorted : AllSquashesSorted ts) :
    ∃ squash cheques, Shown crypto constants ts squash cheques ∧
      adaptorWithdrawnBy ts ≤ worth squash cheques + 2 * respondWithdrawnBy ts := by
  obtain ⟨squash, cheques, hstep⟩ := h.isRespond
  -- the useds of the datum are backed, and the pendings go as they may
  obtain ⟨hsubbed, hbacked, -, -⟩ := subInv_of_run h.before h.beforeRespond
  have hsafe := RespondedSafe.of_run (tally_of_respond h.accepted hstep) h.after h.onPends
  obtain ⟨vkey, haccepted⟩ := h.accepted
  rw [hstep] at haccepted
  change Respond.do _ _ _ _ _ _ _ _ _ = some vkey at haccepted
  obtain ⟨subbed, useds, elapseAt, pAmount, pends, hsource, htarget⟩ :=
    Respond.stages_of_do haccepted
  rw [hsource, htarget] at haccepted
  rw [hsource] at hsubbed hbacked
  obtain ⟨out, owed, hout, haccount, hle, -⟩ := Respond.do_some.mp haccepted
  obtain ⟨⟨hsigned, husable⟩, ⟨rfl, -⟩, ⟨c, hadvance⟩, rfl⟩ := Respond.account_eq_some.mp haccount
  rw [htarget, Stage.pends] at hsafe
  obtain ⟨lockeds, hlockeds, hperm⟩ := exists_lockeds hsafe
  -- one cheque for each used, and one for each pending that is unlocked
  have htaken : (Respond.taken useds cheques).Sublist useds := by
    conv_rhs => rw [← Respond.taken_append_left useds cheques]
    exact List.sublist_append_left _ _
  obtain ⟨subbeds, hsubbeds, hsubbedsShown⟩ :=
    exists_cheques_of_backed fun u hu => hbacked u (htaken.subset hu)
  obtain ⟨unlocks, hunlocks, hunlocksShown⟩ := by
    refine @exists_shown_of_lockeds _ constants _ lockeds hsafe.onlyFrees ?_ ?_
    · exact fun c hc => husable _ (Respond.mem_lockedsOf.mp (hlockeds.subset hc))
    · exact fun c hc => hperm.subset (List.mem_map_of_mem hc)
  -- their indexes are among those that the respond visits
  have hindexes := index_subperm_visits hsubbeds hlockeds hunlocks
  obtain ⟨hvisits, hahead⟩ := by
    refine (Cursor.advanceAll_isSome_iff ?_).mp ⟨c, hadvance⟩
    refine hsorted t ?_ squash ?_
    · rw [h.eq]
      simp
    · rw [hstep]
      rfl
  have hpre : pre ⊆ ts := by
    rw [h.eq]
    exact List.subset_append_left _ _
  have hpost : post ⊆ ts := by
    rw [h.eq]
    exact fun t' ht' => List.mem_append_right _ (List.mem_cons_of_mem _ ht')
  have hmem : t ∈ ts := by
    rw [h.eq]
    simp
  refine ⟨squash, subbeds ++ (Respond.unlockedsOf cheques ++ unlocks),
    ⟨⟨t, hmem, ?_⟩, hsigned, ?_, ?_, ?_⟩, ?_⟩
  · rw [hstep]
    rfl
  · obtain ⟨l, hl, hsub⟩ := hindexes
    exact hl.nodup_iff.mp ((hvisits.imp ne_of_lt).sublist hsub)
  · exact fun c hc hcovers => hcovers (hahead _ (hindexes.subset (List.mem_map_of_mem hc)))
  · intro c hc
    rcases List.mem_append.mp hc with hc | hc
    · obtain ⟨t', ht', hproves⟩ := hsubbedsShown c hc
      exact ⟨t', hpre ht', hproves.shows⟩
    rcases List.mem_append.mp hc with hc | hc
    · have hc := Respond.mem_unlockedsOf.mp hc
      exact ⟨t, hmem, by rw [hstep]; exact hc, husable _ hc⟩
    · obtain ⟨t', ht', hshown⟩ := hunlocksShown c hc
      exact ⟨t', hpost ht', hshown⟩
  · -- the subs, the respond and the unlocks, each against its part of the evidence
    have hwithdrawn := hsafe.withdrawn
    have hpends : pendsAmount (unlockedBy post) = (unlocks.map fun c => c.body.amount).sum := by
      rw [sum_amount_of_used hunlocks, pendsAmount, ← (hperm.map _).sum_eq, List.map_map]
      rfl
    have hsubbedsAmount : (subbeds.map fun c => c.body.amount).sum =
        usedsAmount (Respond.taken useds cheques) := by
      rw [usedsAmount, ← hsubbeds, List.map_map]
      rfl
    have hout' : t.withdrawn = amountIn t.source.value - out := by
      rw [Transition.withdrawn, hout, Option.getD_some]
    have hsubbedPre : subbed = subbedBy pre := hsubbed
    rw [h.adaptorWithdrawnBy_eq, h.respondWithdrawnBy_eq, worth, List.map_append, List.map_append,
      List.sum_append, List.sum_append, hsubbedsAmount, ← Respond.unlockedAmount_eq_sum, ← hpends]
    linarith

/-! ### What a run preserves -/

/-- From its opening on, through whatever steps, a channel goes through its stages in order, and
the adaptor takes no more than the squash and the cheques that it showed are worth, but for
twice what a respond took. -/
theorem life_safety {value : Value} (hrun : Run crypto constants ⟨value, .opened 0 []⟩ ts s)
    (hsorted : AllSquashesSorted ts) : LifeSafe crypto constants ts s := by
  refine ⟨phases_of_run hrun, ?_⟩
  rcases beforeRespond_or_responds hrun with ⟨hsteps, -⟩ | ⟨-, pre, t, post, hresponds⟩
  · rw [adaptorWithdrawnBy_of_beforeRespond hsteps,
      respondWithdrawnBy_eq_zero fun t ht => Or.inl (hsteps t ht), mul_zero]
    simpa only [add_zero] using taken_of_beforeRespond hrun hsteps hsorted
  · exact Or.inr (hresponds.taken hsorted)

/-- A close after the sub of one cheque. -/
def sampleClose : Transition where
  source := (sampleSub ⟨0, 0, []⟩ 1).target
  bounds := (sampleSub ⟨0, 0, []⟩ 1).bounds
  step := .close
  target := ⟨ada 17_000_000, .closed 5_000_000 [⟨3, 5_000_000⟩] 1_765_975_460_000⟩

/-- A respond on one locked cheque, which takes nothing. -/
def sampleLocked : Transition where
  source := sampleClose.target
  bounds := sampleRespond.bounds
  step := .respond ⟨⟨0, 0, []⟩, List.replicate 64 0⟩
    [.lockedCheque ⟨4, 10_000_000, samplePend.timeout, samplePend.lock⟩ (List.replicate 64 0)]
  target := ⟨ada 17_000_000, .responded 10_000_000 [samplePend]⟩

/-- The unlock of what it makes pending. -/
def sampleUnlocked : Transition where
  source := sampleLocked.target
  bounds := sampleRespond.bounds
  step := .unlock [List.replicate 32 0]
  target := ⟨ada 7_000_000, .responded 0 []⟩

/-- Of 22 ada the adaptor takes 15, 5 by a sub and 10 by an unlock. -/
theorem life_safety_sub_unlock :
    LifeSafe Crypto.noCrypto sampleConstants
      [sampleSub ⟨0, 0, []⟩ 1, sampleClose, sampleLocked, sampleUnlocked]
      sampleUnlocked.target := by
  refine life_safety (Trace.snoc (Trace.snoc (Trace.snoc
    (run_sampleSub _ _ ⟨List.replicate 32 0, by decide⟩) ⟨rfl, rfl, ?_⟩) ⟨rfl, rfl, ?_⟩)
    ⟨rfl, rfl, ?_⟩) ?_
  · exact ⟨List.replicate 32 0, by decide⟩
  · exact ⟨List.replicate 32 0, by decide⟩
  · exact ⟨List.replicate 32 0, by decide⟩
  · intro t ht squash hsquash
    simp only [List.mem_cons, List.not_mem_nil, or_false] at ht
    rcases ht with rfl | rfl | rfl | rfl
    · obtain rfl := hsquash
      exact List.Pairwise.nil
    · exact absurd hsquash id
    · obtain rfl := hsquash
      exact List.Pairwise.nil
    · exact absurd hsquash id

end Konduit.Kernel
