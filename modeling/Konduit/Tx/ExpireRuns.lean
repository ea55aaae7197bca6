import Konduit.Lib.ByKey
import Konduit.Lib.Trace
import Konduit.Tx.Totals

/-!
# Expires along the runs of both builders

An expire sets the amount of a channel to the total of the pendings that remain, whatever there
was.  So it is a gain of the consumer just when the amount covers what times out later than each
pending (`Channel.expiresFairly_iff`).  Neither a respond nor an unlock sees to that: in a run from
an opened channel every expire is fair just when each of them leaves it so
(`Channel.fair_run_iff`), as it does when responds are funded (`Channel.fair_of_funded`).
-/

open Lib

namespace Konduit.Tx2

open Data Tx Tmp

/-! ### The runs -/

/-- What is asked of either builder. -/
inductive Move where
  | resolve (want : Want) (interval : Interval)
  | call (call : Call)

namespace Channel

/-- The channel as the first builder holds it. -/
def toTx (self : Channel) : Tx.Channel := ⟨self.constants, self.amount, self.stage⟩

/-- The channel that continues a step of the first builder. -/
def ofTx (self : Channel) (next : Tx.Channel) : Channel :=
  { self with constants := next.constants, amount := next.vars.amount, stage := next.vars.stage }

/-- A builder makes a step of the channel, and this is what continues. -/
def Steps (crypto : Crypto) (self : Channel) (move : Move) (next : Channel) : Prop :=
  match move with
  | .resolve want interval => ∃ step, self.resolve crypto want interval = .ok (.cont next step)
  | .call call => ∃ stepped next', self.toTx.step crypto call = some (.ok stepped) ∧
    stepped.contData = some next' ∧ next = self.ofTx next'

/-- No expire that a builder makes of the channel adds to its amount. -/
structure ExpiresFairly (channel : Channel) (crypto : Crypto) : Prop where
  resolved : ∀ interval output step,
    channel.resolve crypto .expire interval = .ok (.cont output step) →
      output.amount ≤ channel.amount
  stepped : ∀ lower stepped next, channel.toTx.expire lower = .ok stepped →
    stepped.contData = some next → next.vars.amount ≤ channel.amount

end Channel

/-! ### What an expire leaves -/

/-- When one pending times out, the amount covers those that time out later. -/
def Covers (amount : UInt64) (pendings : List Pending) : Prop :=
  ∀ p ∈ pendings, pendingsSum (pendings.filter fun q => p.timeout < q.timeout) ≤ amount

section Covers

variable {amount : UInt64} {pendings : List Pending} {lower : Duration}

/-- What remains is what times out later than the last that is timed out. -/
lemma exists_notTimedOut_eq (h : ∃ p ∈ pendings, p.timeout < lower) :
    ∃ p ∈ pendings, notTimedOut lower pendings =
      pendings.filter fun q => p.timeout < q.timeout := by
  obtain ⟨p₀, hp₀, hlate₀⟩ := h
  have hne : pendings.filter (fun p => p.timeout < lower) ≠ [] :=
    List.ne_nil_of_mem (List.mem_filter.mpr ⟨hp₀, decide_eq_true hlate₀⟩)
  obtain ⟨p, hp⟩ := exists_maxByKey Pending.timeout hne
  have hmem := List.mem_filter.mp (mem_of_maxByKey hp)
  refine ⟨p, hmem.1, List.filter_congr fun q hq => ?_⟩
  rw [decide_eq_decide]
  constructor
  · exact (of_decide_eq_true hmem.2).trans_le
  · intro hlt
    by_contra hlate
    have hmax := le_of_maxByKey hp
      (List.mem_filter.mpr ⟨hq, decide_eq_true (not_le.mp hlate)⟩)
    exact absurd hlt hmax.not_gt

/-- What times out later than a pending remains at some bound after it, if it is anything. -/
lemma sum_later_le {p : Pending} (hp : p ∈ pendings)
    (h : ∀ lower, (∃ p ∈ pendings, p.timeout < lower) →
      pendingsSum (notTimedOut lower pendings) ≤ amount) :
    pendingsSum (pendings.filter fun q => p.timeout < q.timeout) ≤ amount := by
  by_cases hnext : p.timeout.nanos + 1 < 2 ^ 64 * 10 ^ 9
  · have hlater := h ⟨p.timeout.nanos + 1, hnext⟩ ⟨p, hp, Nat.lt_succ_self p.timeout.nanos⟩
    exact hlater
  · have hnone : (pendings.filter fun q => p.timeout < q.timeout) = [] := by
      refine List.filter_eq_nil_iff.mpr fun q _ hlt => ?_
      have hlt : p.timeout.nanos < q.timeout.nanos := of_decide_eq_true hlt
      have := q.timeout.lt
      omega
    rw [hnone]
    exact UInt64.zero_le

lemma covers_iff : Covers amount pendings ↔
    ∀ lower, (∃ p ∈ pendings, p.timeout < lower) →
      pendingsSum (notTimedOut lower pendings) ≤ amount := by
  constructor
  · intro h lower hlate
    obtain ⟨p, hp, heq⟩ := exists_notTimedOut_eq hlate
    rw [heq]
    exact h p hp
  · exact fun h p hp => sum_later_le hp h

end Covers

/-! ### Fair expires -/

namespace Channel

section Fair

variable {crypto : Crypto} {self : Channel} {interval : Interval}

/-- What the second builder leaves. -/
lemma exists_of_resolve_expire {output : Channel} {step : WillCont}
    (h : self.resolve crypto .expire interval = .ok (.cont output step)) :
    ∃ total pendings lower, self.stage = .responded total pendings ∧
      interval.lower = some lower ∧ (∃ p ∈ pendings, p.timeout < lower) ∧
      output.amount = pendingsSum (notTimedOut lower pendings) ∧
      output.stage = .responded output.amount (notTimedOut lower pendings) := by
  obtain ⟨total, pendings, lower, hstage, hlower, hlate⟩ := exists_of_wantExpire h
  obtain ⟨rfl, -⟩ := Will.cont.inj (Except.ok.inj
    ((wantExpire_eq_ok hstage hlower hlate).symm.trans h))
  exact ⟨total, pendings, lower, hstage, hlower, hlate, rfl, rfl⟩

/-- The first builder leaves the same. -/
lemma exists_of_expire {lower : Duration} {stepped : Stepped} {next : Tx.Channel}
    (h : self.toTx.expire lower = .ok stepped) (hcont : stepped.contData = some next) :
    ∃ total pendings, self.stage = .responded total pendings ∧
      (∃ p ∈ pendings, p.timeout < lower) ∧
      next.vars.amount = pendingsSum (notTimedOut lower pendings) ∧
      next.vars.stage = .responded next.vars.amount (notTimedOut lower pendings) := by
  rw [Tx.Channel.expire] at h
  split at h
  · rename_i total pendings hstage
    simp only [Tx.Channel.kept_expireUnpend, Variables.expire,
      show self.toTx.vars.stage = _ from hstage] at h
    split_ifs at h with hnone
    cases h
    cases hcont
    have hlate := not_not.mp (mt Tx.Channel.keepsAll_expireUnpend_iff.mpr hnone)
    exact ⟨total, pendings, hstage, hlate, rfl, rfl⟩
  · cases h

/-- Expires are fair where the amount covers what times out later. -/
theorem expiresFairly_iff : self.ExpiresFairly crypto ↔
    ∀ total pendings, self.stage = .responded total pendings → Covers self.amount pendings := by
  constructor
  · intro h total pendings hstage
    refine covers_iff.mpr fun lower hlate => ?_
    have hok := @wantExpire_eq_ok self ⟨some lower, none⟩ total pendings lower hstage rfl hlate
    exact h.resolved ⟨some lower, none⟩ _ _ hok
  · intro h
    constructor
    · intro interval output step hok
      obtain ⟨total, pendings, lower, hstage, -, hlate, hamount, -⟩ := exists_of_resolve_expire hok
      rw [hamount]
      exact covers_iff.mp (h total pendings hstage) lower hlate
    · intro lower stepped next hok hcont
      obtain ⟨total, pendings, hstage, hlate, hamount, -⟩ := exists_of_expire hok hcont
      rw [hamount]
      exact covers_iff.mp (h total pendings hstage) lower hlate

end Fair

/-! ### What the other steps leave -/

section Steps

variable {crypto : Crypto} {self output : Channel} {interval : Interval} {step : WillCont}

/-- The pendings of a respond. -/
def pendingsOf {V : VerifyState} (cheques : List (Cheque V)) (useds : List Used)
    (upper : Duration) : List Pending :=
  (pendingCheques cheques useds upper).map Pending.ofLocked

/-- What a respond leaves: the amount without what is owed and was not subbed. -/
def respondLeaves {V : VerifyState} (amount subbed : UInt64) (useds : List Used)
    (squash : Squash V) (cheques : List (Cheque V)) (upper : Duration) : UInt64 :=
  Word.satSub amount (Word.satSub (absoluteOwed useds squash cheques upper) subbed)

lemma exists_of_resolve_respond {squash : Squash .unverified} {cheques : List (Cheque .unverified)}
    (h : self.resolve crypto (.respond squash cheques) interval = .ok (.cont output step)) :
    ∃ subbed useds elapseAt upper, self.stage = .closed subbed useds elapseAt ∧
      interval.upper = some upper ∧ upper < elapseAt ∧
      output.amount = respondLeaves self.amount subbed useds squash cheques upper ∧
      output.stage = .responded (pendingsSum (pendingsOf cheques useds upper))
        (pendingsOf cheques useds upper) := by
  rw [resolve, wantRespond] at h
  split at h
  · rename_i subbed useds elapseAt hstage
    split at h
    · cases h
    · rename_i upper hupper
      dsimp only at h
      split_ifs at h with hlate
      cases h
      exact ⟨subbed, useds, elapseAt, upper, hstage, hupper, not_le.mp hlate,
        Word.sub_min _ _, rfl⟩
  · cases h

lemma exists_of_resolve_unlock {secrets : List Secret}
    (h : self.resolve crypto (.unlock secrets) interval = .ok (.cont output step)) :
    ∃ total pendings upper, self.stage = .responded total pendings ∧
      interval.upper = some upper ∧
      output.amount =
        Word.satSub self.amount (pendingsSum (freed (unlockUnpend crypto secrets upper) pendings)) ∧
      output.stage =
        .responded (pendingsSum (pendings.filter fun p =>
            (unlockUnpend crypto secrets upper p).isContinue))
          (pendings.filter fun p => (unlockUnpend crypto secrets upper p).isContinue) := by
  rw [resolve, wantUnlock] at h
  split at h
  · rename_i total pendings hstage
    split at h
    · cases h
    · rename_i upper hupper
      simp only [map_freed, remaining_eq] at h
      cases h
      exact ⟨total, pendings, upper, hstage, hupper, rfl, rfl⟩
  · cases h

variable {stepped : Stepped} {next : Tx.Channel}

lemma exists_of_respond {receipt : Receipt} {upper : Duration}
    (h : self.toTx.respond receipt upper = .ok stepped) (hcont : stepped.contData = some next) :
    ∃ subbed useds elapseAt, self.stage = .closed subbed useds elapseAt ∧
      next.vars.amount =
        respondLeaves self.amount subbed useds receipt.squash receipt.cheques upper ∧
      next.vars.stage = .responded (pendingsSum (pendingsOf receipt.cheques useds upper))
        (pendingsOf receipt.cheques useds upper) := by
  rw [Tx.Channel.respond] at h
  split at h
  · rename_i subbed useds elapseAt hstage
    simp only [Variables.respond, show self.toTx.vars.stage = _ from hstage] at h
    cases h
    cases hcont
    exact ⟨subbed, useds, elapseAt, hstage, Word.sub_min _ _, rfl⟩
  · cases h

lemma exists_of_unlock {secrets : List Secret} {upper : Duration}
    (h : self.toTx.unlockWithSecrets crypto secrets upper = .ok stepped)
    (hcont : stepped.contData = some next) :
    ∃ total pendings, self.stage = .responded total pendings ∧
      next.vars.amount = Word.satSub self.amount
        (pendingsSum (freed (Tx.Channel.unpend crypto secrets upper) pendings)) ∧
      next.vars.stage =
        .responded (pendingsSum (freed (Tx.Channel.unpend crypto secrets upper) pendings))
          (freed (Tx.Channel.unpend crypto secrets upper) pendings) := by
  cases hstage : self.stage with
  | responded total pendings =>
    have hvars : self.toTx.vars = ⟨self.amount, .responded total pendings⟩ :=
      congrArg (Variables.mk self.amount) hstage
    rw [Tx.Channel.unlockWithSecrets_eq hvars] at h
    cases h
    cases hcont
    exact ⟨total, pendings, rfl, rfl, rfl⟩
  | opened _ _ | closed _ _ _ =>
    rw [Tx.Channel.unlockWithSecrets, show self.toTx.stage = _ from hstage] at h
    cases h

end Steps

/-! ### What the steps leave covered -/

section Covered

variable {crypto : Crypto} {self next : Channel}

lemma expiresFairly_iff_covers {total : UInt64} {pendings : List Pending}
    (h : next.stage = .responded total pendings) :
    next.ExpiresFairly crypto ↔ Covers next.amount pendings := by
  rw [expiresFairly_iff]
  constructor
  · exact fun hfair => hfair total pendings h
  · intro hcovers total' pendings' h'
    cases h.symm.trans h'
    exact hcovers

/-- Nothing expires of a channel that is not responded. -/
lemma expiresFairly_of_ne (h : ∀ total pendings, next.stage ≠ .responded total pendings) :
    next.ExpiresFairly crypto :=
  expiresFairly_iff.mpr fun total pendings hstage => absurd hstage (h total pendings)

end Covered

end Channel

/-- What the step leaves covers what times out later than each of the pendings that it leaves. -/
def Move.Covered (crypto : Crypto) (channel : Channel) : Move → Prop
  | .resolve (.respond squash cheques) interval => ∀ subbed useds elapseAt upper,
    channel.stage = .closed subbed useds elapseAt → interval.upper = some upper →
      Covers (Channel.respondLeaves channel.amount subbed useds squash cheques upper)
        (Channel.pendingsOf cheques useds upper)
  | .resolve (.unlock secrets) interval => ∀ total pendings upper,
    channel.stage = .responded total pendings → interval.upper = some upper →
      Covers
        (Word.satSub channel.amount
          (pendingsSum (freed (Channel.unlockUnpend crypto secrets upper) pendings)))
        (pendings.filter fun p => (Channel.unlockUnpend crypto secrets upper p).isContinue)
  | .resolve .expire interval => ∀ total pendings lower,
    channel.stage = .responded total pendings → interval.lower = some lower →
      Covers (pendingsSum (notTimedOut lower pendings)) (notTimedOut lower pendings)
  | .call (.respond receipt upper) => ∀ subbed useds elapseAt,
    channel.stage = .closed subbed useds elapseAt →
      Covers
        (Channel.respondLeaves channel.amount subbed useds receipt.squash receipt.cheques upper)
        (Channel.pendingsOf receipt.cheques useds upper)
  | .call (.unlock secrets upper) => ∀ total pendings, channel.stage = .responded total pendings →
      Covers
        (Word.satSub channel.amount
          (pendingsSum (freed (Tx.Channel.unpend crypto secrets upper) pendings)))
        (freed (Tx.Channel.unpend crypto secrets upper) pendings)
  | .call (.expire lower) => ∀ total pendings, channel.stage = .responded total pendings →
      Covers (pendingsSum (notTimedOut lower pendings)) (notTimedOut lower pendings)
  | .resolve (.add _) _ | .resolve (.sub _ _) _ | .resolve .close _ | .resolve .elapse _
  | .resolve .end _ | .call (.add _) | .call (.sub _ _) | .call (.close _) => True

/-- A respond is funded: the amount is enough for what it takes and for what becomes pending.  An
unlock of the first builder goes on with what it frees, so the amount is to be enough twice. -/
def Move.Funded (crypto : Crypto) (channel : Channel) : Move → Prop
  | .resolve (.respond squash cheques) interval => ∀ subbed useds elapseAt upper,
    channel.stage = .closed subbed useds elapseAt → interval.upper = some upper →
      respondOwed useds squash cheques upper < 2 ^ 64 ∧
        respondOwed useds squash cheques upper - subbed.toNat + pendingOwed useds cheques upper ≤
          channel.amount.toNat
  | .call (.respond receipt upper) => ∀ subbed useds elapseAt,
    channel.stage = .closed subbed useds elapseAt →
      respondOwed useds receipt.squash receipt.cheques upper < 2 ^ 64 ∧
        respondOwed useds receipt.squash receipt.cheques upper - subbed.toNat +
          pendingOwed useds receipt.cheques upper ≤ channel.amount.toNat
  | .call (.unlock secrets upper) => ∀ total pendings, channel.stage = .responded total pendings →
      2 * pendingsTotal (freed (Tx.Channel.unpend crypto secrets upper) pendings) ≤
        channel.amount.toNat
  | _ => True

namespace Channel

section Runs

variable {crypto : Crypto} {self next : Channel}

/-- Where the second builder goes on without pendings. -/
lemma stage_of_resolve {want : Want} {interval : Interval} {step : WillCont}
    (h : self.resolve crypto want interval = .ok (.cont next step))
    (hrespond : ∀ squash cheques, want ≠ .respond squash cheques)
    (hunlock : ∀ secrets, want ≠ .unlock secrets) (hexpire : want ≠ .expire) (total : UInt64)
    (pendings : List Pending) : next.stage ≠ .responded total pendings := by
  cases want with
  | respond squash cheques => exact absurd rfl (hrespond squash cheques)
  | unlock secrets => exact absurd rfl (hunlock secrets)
  | expire => exact absurd rfl hexpire
  | add amount =>
    rw [resolve, wantAdd] at h
    split at h
    · rename_i subbed useds hstage
      split_ifs at h
      cases h
      simp [stepped, hstage]
    · cases h
  | sub squash cheques =>
    simp only [resolve, wantSub] at h
    (repeat' split at h) <;> cases h
    simp [stepped]
  | close =>
    simp only [resolve, wantClose] at h
    (repeat' split at h) <;> cases h
    simp [stepped]
  | elapse =>
    simp only [resolve, wantElapse] at h
    (repeat' split at h) <;> cases h
  | «end» =>
    simp only [resolve, wantEnd] at h
    (repeat' split at h) <;> cases h

/-- Where the first builder goes on without pendings. -/
lemma stage_of_step {call : Call} {stepped : Stepped} {next' : Tx.Channel}
    (h : self.toTx.step crypto call = some (.ok stepped))
    (hcont : stepped.contData = some next')
    (hrespond : ∀ receipt upper, call ≠ .respond receipt upper)
    (hunlock : ∀ secrets upper, call ≠ .unlock secrets upper)
    (hexpire : ∀ lower, call ≠ .expire lower) (total : UInt64) (pendings : List Pending) :
    (self.ofTx next').stage ≠ .responded total pendings := by
  cases call with
  | respond receipt upper => exact absurd rfl (hrespond receipt upper)
  | unlock secrets upper => exact absurd rfl (hunlock secrets upper)
  | expire lower => exact absurd rfl (hexpire lower)
  | add amount =>
    have h := Option.some.inj h
    rw [Tx.Channel.add, Variables.add] at h
    split at h
    · rename_i subbed useds hstage
      split_ifs at h
      · cases h
      · obtain rfl := Except.ok.inj h
        obtain rfl := Option.some.inj hcont
        simp [ofTx, hstage]
    · cases h
  | sub receipt upper =>
    have h := Option.some.inj h
    simp only [Tx.Channel.sub, Variables.sub, bind, Except.bind, pure, Except.pure] at h
    (repeat' split at h) <;> cases h
    cases hcont
    rename_i hvars
    (repeat' split at hvars) <;> cases hvars
    simp [ofTx]
  | close upper =>
    rw [Tx.Channel.step, Tx.Channel.close, Option.bind_eq_bind, Option.bind_eq_some_iff] at h
    obtain ⟨vars | vars, hvars, h⟩ := h <;> cases h
    cases hcont
    rw [Variables.close] at hvars
    split at hvars
    · rw [Option.bind_eq_bind, Option.bind_eq_some_iff] at hvars
      obtain ⟨_, -, hvars⟩ := hvars
      cases hvars
      simp [ofTx]
    · cases hvars

/-- **A step.**  It leaves a channel whose expires are fair just when what it leaves is covered. -/
theorem expiresFairly_iff_covered {move : Move} (h : self.Steps crypto move next) :
    next.ExpiresFairly crypto ↔ move.Covered crypto self := by
  cases move with
  | resolve want interval =>
    obtain ⟨step, hok⟩ := h
    cases want with
    | respond squash cheques =>
      obtain ⟨subbed, useds, elapseAt, upper, hstage, hupper, -, hamount, hnext⟩ :=
        exists_of_resolve_respond hok
      rw [expiresFairly_iff_covers hnext, hamount]
      constructor
      · intro hcovers _ _ _ _ hstage' hupper'
        cases hstage.symm.trans hstage'
        cases hupper.symm.trans hupper'
        exact hcovers
      · exact fun hcovered => hcovered subbed useds elapseAt upper hstage hupper
    | unlock secrets =>
      obtain ⟨total, pendings, upper, hstage, hupper, hamount, hnext⟩ :=
        exists_of_resolve_unlock hok
      rw [expiresFairly_iff_covers hnext, hamount]
      constructor
      · intro hcovers _ _ _ hstage' hupper'
        cases hstage.symm.trans hstage'
        cases hupper.symm.trans hupper'
        exact hcovers
      · exact fun hcovered => hcovered total pendings upper hstage hupper
    | expire =>
      obtain ⟨total, pendings, lower, hstage, hlower, -, hamount, hnext⟩ :=
        exists_of_resolve_expire hok
      rw [expiresFairly_iff_covers hnext, hamount]
      constructor
      · intro hcovers _ _ _ hstage' hlower'
        cases hstage.symm.trans hstage'
        cases hlower.symm.trans hlower'
        exact hcovers
      · exact fun hcovered => hcovered total pendings lower hstage hlower
    | _ =>
      refine iff_of_true (expiresFairly_of_ne ?_) trivial
      exact stage_of_resolve hok (by simp) (by simp) (by simp)
  | call call =>
    obtain ⟨stepped, next', hok, hcont, rfl⟩ := h
    cases call with
    | respond receipt upper =>
      obtain ⟨subbed, useds, elapseAt, hstage, hamount, hnext⟩ :=
        exists_of_respond (Option.some.inj hok) hcont
      rw [expiresFairly_iff_covers hnext, ofTx, hamount]
      constructor
      · intro hcovers _ _ _ hstage'
        cases hstage.symm.trans hstage'
        exact hcovers
      · exact fun hcovered => hcovered subbed useds elapseAt hstage
    | unlock secrets upper =>
      obtain ⟨total, pendings, hstage, hamount, hnext⟩ :=
        exists_of_unlock (Option.some.inj hok) hcont
      rw [expiresFairly_iff_covers hnext, ofTx, hamount]
      constructor
      · intro hcovers _ _ hstage'
        cases hstage.symm.trans hstage'
        exact hcovers
      · exact fun hcovered => hcovered total pendings hstage
    | expire lower =>
      obtain ⟨total, pendings, hstage, -, hamount, hnext⟩ :=
        exists_of_expire (Option.some.inj hok) hcont
      rw [expiresFairly_iff_covers hnext, ofTx, hamount]
      constructor
      · intro hcovers _ _ hstage'
        cases hstage.symm.trans hstage'
        exact hcovers
      · exact fun hcovered => hcovered total pendings hstage
    | _ =>
      refine iff_of_true (expiresFairly_of_ne ?_) trivial
      exact stage_of_step hok hcont (by simp) (by simp) (by simp)

/-- **Expires along a run.**  From an opened channel every expire that a builder makes along the
way is a gain of the consumer just when each step leaves what it leaves covered. -/
theorem fair_run_iff {start : Channel} {subbed : UInt64} {useds : List Used}
    (hstart : start.stage = .opened subbed useds) (moves : List Move) :
    (∀ before channel, before <+: moves → Trace (Steps crypto) start before channel →
        channel.ExpiresFairly crypto) ↔
      Trace.EachStep (Steps crypto) start moves fun channel move _ =>
        move.Covered crypto channel := by
  constructor
  · intro h before move after channel next hmoves hrun hstep
    refine (expiresFairly_iff_covered hstep).mp (h (before ++ [move]) next ?_ (hrun.snoc hstep))
    exact ⟨after, by rw [hmoves, List.append_assoc, List.singleton_append]⟩
  · intro h before channel hbefore hrun
    -- the last step decides
    cases hrun with
    | nil => exact expiresFairly_of_ne (by simp [hstart])
    | @snoc before previous _ move hrun hstep =>
      obtain ⟨after, rfl⟩ := hbefore
      refine (expiresFairly_iff_covered hstep).mpr
        (h before move after previous channel ?_ hrun hstep)
      rw [List.append_assoc, List.singleton_append]

/-! ### Funded runs -/

/-- The amount is enough for all pendings. -/
def Funded (channel : Channel) : Prop :=
  ∀ total pendings, channel.stage = .responded total pendings →
    pendingsTotal pendings ≤ channel.amount.toNat

lemma pendingsTotal_filter_add (p : Pending → Bool) (pendings : List Pending) :
    pendingsTotal (pendings.filter p) + pendingsTotal (pendings.filter fun q => !p q) =
      pendingsTotal pendings := by
  have hperm := (List.filter_append_perm p pendings).map fun q : Pending => q.amount.toNat
  rw [List.map_append] at hperm
  rw [pendingsTotal, pendingsTotal, pendingsTotal, ← List.sum_append, hperm.sum_nat]

lemma pendingsTotal_filter_le (p : Pending → Bool) (pendings : List Pending) :
    pendingsTotal (pendings.filter p) ≤ pendingsTotal pendings := by
  rw [← pendingsTotal_filter_add p pendings]
  exact Nat.le_add_right _ _

/-- What is freed and what goes on are all there was. -/
lemma pendingsTotal_freed_add (f : Pending → Unpend) (pendings : List Pending) :
    pendingsTotal (freed f pendings) + pendingsTotal (pendings.filter fun p => (f p).isContinue) =
      pendingsTotal pendings := by
  rw [add_comm]
  exact pendingsTotal_filter_add _ pendings

/-- Expires of a funded channel are fair. -/
lemma Funded.expiresFairly (h : self.Funded) : self.ExpiresFairly crypto := by
  refine expiresFairly_iff.mpr fun total pendings hstage p _ => ?_
  have hle := (pendingsTotal_filter_le (fun q => p.timeout < q.timeout) pendings).trans
    (h total pendings hstage)
  rw [UInt64.le_iff_toNat_le, toNat_pendingsSum (hle.trans_lt self.amount.toNat_lt)]
  exact hle

lemma funded_of_respond {V : VerifyState} {squash : Squash V} {cheques : List (Cheque V)}
    {useds : List Used} {upper : Duration} {amount subbed : UInt64}
    (hfits : respondOwed useds squash cheques upper < 2 ^ 64)
    (hfunded : respondOwed useds squash cheques upper - subbed.toNat +
      pendingOwed useds cheques upper ≤ amount.toNat) :
    pendingsTotal (pendingsOf cheques useds upper) ≤
      (respondLeaves amount subbed useds squash cheques upper).toNat := by
  have htotal : pendingsTotal (pendingsOf cheques useds upper) =
      pendingOwed useds cheques upper := by
    rw [pendingsTotal, pendingsOf, List.map_map]
    rfl
  rw [htotal, respondLeaves, Word.toNat_satSub, Word.toNat_satSub,
    toNat_absoluteOwed_respond hfits]
  omega

/-- A funded step leaves a funded channel funded. -/
lemma Funded.step {move : Move} (h : self.Funded) (hfunded : move.Funded crypto self)
    (hstep : self.Steps crypto move next) : next.Funded := by
  cases move with
  | resolve want interval =>
    obtain ⟨step, hok⟩ := hstep
    cases want with
    | respond squash cheques =>
      obtain ⟨subbed, useds, elapseAt, upper, hstage, hupper, -, hamount, hnext⟩ :=
        exists_of_resolve_respond hok
      obtain ⟨hfits, hle⟩ := hfunded subbed useds elapseAt upper hstage hupper
      intro total pendings hstage'
      cases hnext.symm.trans hstage'
      rw [hamount]
      exact funded_of_respond hfits hle
    | unlock secrets =>
      obtain ⟨total, pendings, upper, hstage, -, hamount, hnext⟩ := exists_of_resolve_unlock hok
      intro total' pendings' hstage'
      cases hnext.symm.trans hstage'
      have hle := h total pendings hstage
      have hadd := pendingsTotal_freed_add (unlockUnpend crypto secrets upper) pendings
      have hlt := self.amount.toNat_lt
      rw [hamount, Word.toNat_satSub, toNat_pendingsSum (by omega)]
      omega
    | expire =>
      obtain ⟨total, pendings, lower, hstage, -, -, hamount, hnext⟩ := exists_of_resolve_expire hok
      intro total' pendings' hstage'
      cases hnext.symm.trans hstage'
      have hle := (pendingsTotal_filter_le (fun p => lower ≤ p.timeout) pendings).trans
        (h total pendings hstage)
      rw [hamount, notTimedOut, toNat_pendingsSum (hle.trans_lt self.amount.toNat_lt)]
    | _ => exact fun total pendings hstage =>
        absurd hstage (stage_of_resolve hok (by simp) (by simp) (by simp) total pendings)
  | call call =>
    obtain ⟨stepped, next', hok, hcont, rfl⟩ := hstep
    cases call with
    | respond receipt upper =>
      obtain ⟨subbed, useds, elapseAt, hstage, hamount, hnext⟩ :=
        exists_of_respond (Option.some.inj hok) hcont
      obtain ⟨hfits, hle⟩ := hfunded subbed useds elapseAt hstage
      intro total pendings hstage'
      cases hnext.symm.trans hstage'
      rw [ofTx, hamount]
      exact funded_of_respond hfits hle
    | unlock secrets upper =>
      obtain ⟨total, pendings, hstage, hamount, hnext⟩ :=
        exists_of_unlock (Option.some.inj hok) hcont
      intro total' pendings' hstage'
      cases hnext.symm.trans hstage'
      have hle := hfunded total pendings hstage
      have hlt := self.amount.toNat_lt
      rw [ofTx, hamount, Word.toNat_satSub, toNat_pendingsSum (by omega)]
      omega
    | expire lower =>
      obtain ⟨total, pendings, hstage, -, hamount, hnext⟩ :=
        exists_of_expire (Option.some.inj hok) hcont
      intro total' pendings' hstage'
      cases hnext.symm.trans hstage'
      have hle := (pendingsTotal_filter_le (fun p => lower ≤ p.timeout) pendings).trans
        (h total pendings hstage)
      change _ ≤ next'.vars.amount.toNat
      rw [hamount, notTimedOut, toNat_pendingsSum (hle.trans_lt self.amount.toNat_lt)]
    | _ => exact fun total pendings hstage =>
        absurd hstage (stage_of_step hok hcont (by simp) (by simp) (by simp) total pendings)

/-- Along a run of funded steps from an opened channel every expire is fair. -/
theorem fair_of_funded {start : Channel} {subbed : UInt64} {useds : List Used}
    (hstart : start.stage = .opened subbed useds) {moves : List Move} {channel : Channel}
    (hrun : Trace (Steps crypto) start moves channel)
    (hfunded : Trace.EachStep (Steps crypto) start moves fun channel move _ =>
      move.Funded crypto channel) :
    channel.Funded ∧ channel.ExpiresFairly crypto := by
  have hkeep : channel.Funded := by
    induction hrun with
    | nil => simp [Funded, hstart]
    | @snoc before previous next move hrun hstep ih =>
      have hprevious : previous.Funded := ih fun pre move' after s s' hpre =>
        hfunded pre move' (after ++ [move]) s s' (by rw [hpre]; simp)
      exact hprevious.step (hfunded before move [] previous next rfl hrun hstep) hstep
  exact ⟨hkeep, hkeep.expiresFairly⟩

end Runs

end Channel

/-! ### Two pendings -/

namespace Sample

/-- A locked cheque at an index. -/
def lockedCheque (index amount : UInt64) (timeout : Duration) : Cheque .unverified :=
  .locked ⟨⟨index, amount, timeout, ⟨BytesN.fill 32 0⟩⟩, ⟨BytesN.fill 64 0⟩⟩

/-- Closing up to a hundred seconds, and responding within two hundred. -/
def closeAndRespond (cheques : List (Cheque .unverified)) : List Move :=
  [.resolve .close ⟨none, some (.fromSecs 100)⟩,
    .resolve (.respond (squash.withState .unverified) cheques) ⟨none, some (.fromSecs 200)⟩]

lemma steps_close : Channel.Steps .noCrypto (channel 3_000_000 (.opened 0 []))
    (.resolve .close ⟨none, some (.fromSecs 100)⟩)
    (channel 3_000_000 (.closed 0 [] (.fromSecs 86_500))) := ⟨_, rfl⟩

end Sample

/-- With one pending the expire is fair, also where the amount is not enough for it. -/
theorem fair_of_one_cheque :
    (Sample.channel 3_000_000 (.responded 4_000_000 [⟨4_000_000, .fromSecs 500,
      ⟨BytesN.fill 32 0⟩⟩])).ExpiresFairly .noCrypto := by
  have hrespond : Channel.Steps .noCrypto
      (Sample.channel 3_000_000 (.closed 0 [] (.fromSecs 86_500)))
      (.resolve (.respond (Sample.squash.withState .unverified)
        [Sample.lockedCheque 1 4_000_000 (.fromSecs 500)]) ⟨none, some (.fromSecs 200)⟩)
      (Sample.channel 3_000_000 (.responded 4_000_000 [⟨4_000_000, .fromSecs 500,
        ⟨BytesN.fill 32 0⟩⟩])) := ⟨_, rfl⟩
  refine (Channel.fair_run_iff rfl
    (Sample.closeAndRespond [Sample.lockedCheque 1 4_000_000 (.fromSecs 500)])).mpr ?_ _ _
    (List.prefix_refl _) ((Trace.nil.snoc Sample.steps_close).snoc hrespond)
  rintro before move after channel next hmoves - -
  -- nothing times out later than the one pending
  rw [Sample.closeAndRespond] at hmoves
  rcases List.cons_eq_append_iff.mp hmoves with ⟨rfl, h⟩ | ⟨before', rfl, h⟩
  · obtain ⟨rfl, -⟩ := List.cons_eq_cons.mp h
    trivial
  · rcases List.cons_eq_append_iff.mp h with ⟨rfl, h⟩ | ⟨_, -, h⟩
    · obtain ⟨rfl, -⟩ := List.cons_eq_cons.mp h
      intro subbed useds elapseAt upper _ _ p hp
      have htime : ∀ q ∈ Channel.pendingsOf [Sample.lockedCheque 1 4_000_000 (.fromSecs 500)]
          useds upper, q.timeout = .fromSecs 500 := by
        intro q hq
        obtain ⟨locked, hlocked, rfl⟩ := List.mem_map.mp hq
        obtain ⟨cheque, hcheque, hsome⟩ := List.mem_filterMap.mp hlocked
        obtain rfl := List.mem_singleton.mp (mem_activeCheques.mp hcheque).1
        obtain rfl := Option.some.inj hsome
        rfl
      have hnone : ((Channel.pendingsOf [Sample.lockedCheque 1 4_000_000 (.fromSecs 500)] useds
          upper).filter fun q => p.timeout < q.timeout) = [] :=
        List.filter_eq_nil_iff.mpr fun q hq => by simp [htime p hp, htime q hq]
      rw [hnone]
      exact UInt64.zero_le
    · simp at h

/-- The second of two pendings is more than the amount that is left after the respond, and what
is left of the channel after the first times out. -/
theorem not_fair_of_two_cheques :
    ∃ channel output step,
      Trace (Channel.Steps .noCrypto) (Sample.channel 3_000_000 (.opened 0 []))
        (Sample.closeAndRespond [Sample.lockedCheque 1 1 (.fromSecs 500),
          Sample.lockedCheque 2 4_000_000 (.fromSecs 600)]) channel ∧
      channel.resolve .noCrypto .expire ⟨some (.fromSecs 550), none⟩ = .ok (.cont output step) ∧
      channel.amount = 3_000_000 ∧ output.amount = 4_000_000 := by
  have hrespond : Channel.Steps .noCrypto
      (Sample.channel 3_000_000 (.closed 0 [] (.fromSecs 86_500)))
      (.resolve (.respond (Sample.squash.withState .unverified)
        [Sample.lockedCheque 1 1 (.fromSecs 500), Sample.lockedCheque 2 4_000_000 (.fromSecs 600)])
        ⟨none, some (.fromSecs 200)⟩)
      (Sample.channel 3_000_000 (.responded 4_000_001 [⟨1, .fromSecs 500, ⟨BytesN.fill 32 0⟩⟩,
        ⟨4_000_000, .fromSecs 600, ⟨BytesN.fill 32 0⟩⟩])) := ⟨_, rfl⟩
  exact ⟨_, _, _, (Trace.nil.snoc Sample.steps_close).snoc hrespond, rfl, rfl, rfl⟩

end Konduit.Tx2
