import Konduit.Lib.Checked
import Konduit.Tx2.Consumer
import Konduit.Tx2.Respond

/-!
# What the second builder's arithmetic takes

The steps once more, in checked arithmetic: there is no result where a sum or a difference wraps,
or where the addition of two durations panics (`Channel.resolveChecked`).  Sums of what is signed,
pending or paid in are not guarded by the code, so a want resolves exactly just when these sums
fit in a word (`Channel.Fits`).
-/

open Lib

namespace Konduit.Tx2

open Data Tx

/-- The amounts of pendings, in exact arithmetic. -/
def pendingsTotal (pendings : List Pending) : ℕ := (pendings.map fun p => p.amount.toNat).sum

/-- The amounts of pendings, as the builders add them up. -/
def pendingsSum (pendings : List Pending) : UInt64 := Word.sum (pendings.map Pending.amount)

lemma toNat_pendingsSum {pendings : List Pending} (h : pendingsTotal pendings < 2 ^ 64) :
    (pendingsSum pendings).toNat = pendingsTotal pendings := by
  rw [pendingsSum, Word.toNat_sum_map]
  exact Nat.mod_eq_of_lt h

/-- The pendings that are not timed out at a bound. -/
def notTimedOut (lower : Duration) (pendings : List Pending) : List Pending :=
  pendings.filter fun p => lower ≤ p.timeout

/-! ### Checked steps -/

/-- The preparation of a respond, unless a sum overflows. -/
def prepRespondChecked {V : VerifyState} (squash : Squash V) (cheques : List (Cheque V))
    (useds : List Used) (upper : Duration) : Option (List (Cheque V) × List Pending × UInt64) := do
  let outCheques := activeCheques cheques useds upper
  let pendings := (outCheques.filterMap Cheque.asLocked).map Pending.ofLocked
  let unlockedAmount ←
    Word.checkedSum ((outCheques.filterMap Cheque.asUnlocked).map ChequeSigned.amount)
  let usedsAmount ← Word.checkedSum ((owedUseds useds squash).map Used.amount)
  let totalAmount ← Word.checkedAdd usedsAmount unlockedAmount
  return (outCheques, pendings, totalAmount)

/-! ### Sums -/

section Gain

variable {owed subbed amount : UInt64}

/-- What was subbed stays in range with what is taken. -/
lemma add_gain_lt (h : min (Word.satSub owed subbed) amount ≠ 0) :
    subbed.toNat + (min (Word.satSub owed subbed) amount).toNat < 2 ^ 64 := by
  have hlt := owed.toNat_lt
  have hne : (min (Word.satSub owed subbed) amount).toNat ≠ 0 :=
    fun hzero => h (UInt64.toNat_inj.mp hzero)
  rw [Word.toNat_min, Word.toNat_satSub] at hne ⊢
  omega

/-- What is taken is available. -/
lemma checkedSub_gain : Word.checkedSub amount (min (Word.satSub owed subbed) amount) =
    some (amount - min (Word.satSub owed subbed) amount) :=
  Word.checkedSub_of_le (min_le_right _ _)

end Gain

lemma prepRespondChecked_eq_some_iff {V : VerifyState} {squash : Squash V}
    {cheques : List (Cheque V)} {useds : List Used} {upper : Duration}
    {x : List (Cheque V) × List Pending × UInt64} :
    prepRespondChecked squash cheques useds upper = some x ↔
      ((owedUseds useds squash).map fun u => u.amount.toNat).sum +
        ((paidCheques cheques useds upper).map fun c => c.amount.toNat).sum < 2 ^ 64 ∧
      prepRespond squash cheques useds upper = x := by
  simp only [prepRespondChecked, Option.bind_eq_bind, Option.bind_eq_some_iff,
    Word.checkedSum_map_eq_some_iff, Word.checkedAdd_eq_some_iff]
  constructor
  · rintro ⟨_, ⟨hpaid, rfl⟩, _, ⟨howed, rfl⟩, _, ⟨hfits, rfl⟩, hx⟩
    rw [Word.toNat_sum_map, Word.toNat_sum_map, Nat.mod_eq_of_lt hpaid,
      Nat.mod_eq_of_lt howed] at hfits
    exact ⟨hfits, Option.some.inj hx⟩
  · rintro ⟨hfits, rfl⟩
    have hpaid : ((paidCheques cheques useds upper).map fun c => c.amount.toNat).sum < 2 ^ 64 :=
      (Nat.le_add_left _ _).trans_lt hfits
    have howed : ((owedUseds useds squash).map fun u => u.amount.toNat).sum < 2 ^ 64 :=
      (Nat.le_add_right _ _).trans_lt hfits
    refine ⟨_, ⟨hpaid, rfl⟩, _, ⟨howed, rfl⟩, _, ⟨?_, rfl⟩, rfl⟩
    rw [Word.toNat_sum_map, Word.toNat_sum_map, Nat.mod_eq_of_lt howed]
    rw [← paidCheques, Nat.mod_eq_of_lt hpaid]
    exact hfits

lemma pendingOwed_eq {V : VerifyState} (squash : Squash V) (cheques : List (Cheque V))
    (useds : List Used) (upper : Duration) :
    pendingOwed useds cheques upper =
      pendingsTotal (prepRespond squash cheques useds upper).2.1 := by
  rw [prepRespond, pendingsTotal, List.map_map]
  rfl

/-- What is owed fits when it fits without the squash, and then with it. -/
lemma respondOwed_lt_iff {V : VerifyState} {squash : Squash V} {cheques : List (Cheque V)}
    {useds : List Used} {upper : Duration} :
    respondOwed useds squash cheques upper < 2 ^ 64 ↔
      ((owedUseds useds squash).map fun u => u.amount.toNat).sum +
        ((paidCheques cheques useds upper).map fun c => c.amount.toNat).sum < 2 ^ 64 ∧
      squash.amount.toNat + (prepRespond squash cheques useds upper).2.2.toNat < 2 ^ 64 := by
  have hsum : (prepRespond squash cheques useds upper).2.2.toNat =
      (((owedUseds useds squash).map fun u => u.amount.toNat).sum +
        ((paidCheques cheques useds upper).map fun c => c.amount.toNat).sum) % 2 ^ 64 := by
    rw [prepRespond, UInt64.toNat_add, Word.toNat_sum_map, Word.toNat_sum_map, ← Nat.add_mod]
    rfl
  rw [hsum, respondOwed]
  omega

/-- The gain of an unlock is what is freed. -/
lemma map_freed (f : Pending → Unpend) (pendings : List Pending) :
    (((pendings.zip (pendings.map f)).filter fun x => !x.2.isContinue).map fun x => x.1.amount) =
      (freed f pendings).map Pending.amount := by
  rw [freed, ← filter_zip_map f (fun u => !u.isContinue), List.map_map]
  rfl

namespace Channel

/-- What the output holds, unless that overflows. -/
def bufferedAmountChecked (self : Channel) : Option UInt64 :=
  Word.checkedAdd self.amount minAdaBuffer

/-- An add, unless it overflows. -/
def wantAddChecked (self : Channel) (amount : UInt64) : Option (Except StepError Will) :=
  match self.stage with
  | .opened _ _ =>
    if amount = 0 then some (.error .noStep)
    else do
      let amount' ← Word.checkedAdd self.amount amount
      return .ok (.cont (self.stepped amount' self.stage) (.add amount))
  | stage => some (.error (.pair (label stage) "Add"))

/-- A sub, unless it overflows. -/
def wantSubChecked (self : Channel) (squash : Squash .unverified)
    (cheques : List (Unlocked .unverified)) (interval : Interval) :
    Option (Except StepError Will) :=
  match self.stage with
  | .opened subbed useds =>
    match interval.upper with
    | none => some (.error (.bound "sub requires an interval upper bound"))
    | some upper => do
      let (unlockeds, useds) := prepSub squash cheques useds upper
      let usedsAmount ← Word.checkedSum (useds.map Used.amount)
      let absoluteOwed ← Word.checkedAdd squash.amount usedsAmount
      let relativeOwed := Word.satSub absoluteOwed subbed
      let gain := min relativeOwed self.amount
      if gain = 0 then some (.error .noStep)
      else
        let amount' ← Word.checkedSub self.amount gain
        let subbed' ← Word.checkedAdd subbed gain
        return .ok (.cont (self.stepped amount' (.opened subbed' useds))
          (.sub squash unlockeds gain))
  | stage => some (.error (.pair (label stage) "Sub"))

/-- A close, unless its time overflows. -/
def wantCloseChecked (self : Channel) (interval : Interval) : Option (Except StepError Will) :=
  match self.stage with
  | .opened subbed useds =>
    match interval.upper with
    | none => some (.error (.bound "close requires an interval upper bound"))
    | some upper => do
      let elapseAt ← upper.checkedAdd self.constants.closePeriod
      return .ok (.cont (self.stepped self.amount (.closed subbed useds elapseAt)) .close)
  | stage => some (.error (.pair (label stage) "Close"))

/-- A respond, unless it overflows. -/
def wantRespondChecked (self : Channel) (squash : Squash .unverified)
    (cheques : List (Cheque .unverified)) (interval : Interval) : Option (Except StepError Will) :=
  match self.stage with
  | .closed subbed useds elapseAt =>
    match interval.upper with
    | none => some (.error (.bound "respond requires an interval upper bound"))
    | some upper =>
      if upper ≥ elapseAt then
        some (.error (.bound "respond interval not strictly before elapse_at"))
      else do
        let (outCheques, pendings, usedsAmount) ← prepRespondChecked squash cheques useds upper
        let absoluteOwed ← Word.checkedAdd squash.amount usedsAmount
        let relativeOwed := Word.satSub absoluteOwed subbed
        let gain := min relativeOwed self.amount
        let pendingsAmount ← Word.checkedSum (pendings.map Pending.amount)
        let amount' ← Word.checkedSub self.amount gain
        return .ok (.cont (self.stepped amount' (.responded pendingsAmount pendings))
          (.respond squash outCheques gain))
  | stage => some (.error (.pair (label stage) "Respond"))

/-- An unlock, unless it overflows. -/
def wantUnlockChecked (self : Channel) (crypto : Crypto) (secrets : List Secret)
    (interval : Interval) : Option (Except StepError Will) :=
  match self.stage with
  | .responded _ pendings =>
    match interval.upper with
    | none => some (.error (.bound "unlock requires an interval upper bound"))
    | some upper => do
      let unpends := pendings.map (unlockUnpend crypto secrets upper)
      let gain ← Word.checkedSum
        (((pendings.zip unpends).filter fun x => !x.2.isContinue).map fun x => x.1.amount)
      let remaining := remaining pendings unpends
      let pendingsAmount ← Word.checkedSum (remaining.map Pending.amount)
      return .ok (.cont
        (self.stepped (Word.satSub self.amount gain) (.responded pendingsAmount remaining))
        (.unlock unpends gain))
  | stage => some (.error (.pair (label stage) "Unlock"))

/-- An expire, unless it overflows. -/
def wantExpireChecked (self : Channel) (interval : Interval) : Option (Except StepError Will) :=
  match self.stage with
  | .responded _ pendings =>
    match interval.lower with
    | none => some (.error (.bound "expire requires an interval lower bound"))
    | some lower =>
      let unpends := pendings.map (expireUnpend lower)
      if unpends.all Unpend.isContinue then some (.error .noStep)
      else do
        let remaining := remaining pendings unpends
        let pendingsAmount ← Word.checkedSum (remaining.map Pending.amount)
        return .ok (.cont (self.stepped pendingsAmount (.responded pendingsAmount remaining))
          (.expire unpends))
  | stage => some (.error (.pair (label stage) "Expire"))

/-- `resolve` in checked arithmetic; an elapse and an end compute nothing. -/
def resolveChecked (self : Channel) (crypto : Crypto) (want : Want) (interval : Interval) :
    Option (Except StepError Will) :=
  match want with
  | .add amount => self.wantAddChecked amount
  | .sub squash cheques => self.wantSubChecked squash cheques interval
  | .close => self.wantCloseChecked interval
  | .respond squash cheques => self.wantRespondChecked squash cheques interval
  | .end => some (self.wantEnd interval)
  | .elapse => some (self.wantElapse interval)
  | .unlock secrets => self.wantUnlockChecked crypto secrets interval
  | .expire => self.wantExpireChecked interval

/-- Nothing wraps and nothing panics, neither in the step nor in the buffer of the continuing
output: the step is the one of exact arithmetic. -/
structure ResolvesExactly (channel : Channel) (crypto : Crypto) (want : Want)
    (interval : Interval) : Prop where
  checked :
    channel.resolveChecked crypto want interval = some (channel.resolve crypto want interval)
  buffered : ∀ output step, channel.resolve crypto want interval = .ok (.cont output step) →
    output.bufferedAmountChecked = some output.bufferedAmount

/-! ### What has to fit -/

/-- The totals that a want adds up fit in a word, and the time at which a close elapses in a
duration. -/
def Fits (self : Channel) (crypto : Crypto) (want : Want) (interval : Interval) : Prop :=
  match want with
  | .add amount => ∀ subbed useds, self.stage = .opened subbed useds → amount ≠ 0 →
    self.amount.toNat + amount.toNat + 2_000_000 < 2 ^ 64
  | .sub squash cheques => ∀ subbed useds upper, self.stage = .opened subbed useds →
    interval.upper = some upper → subOwed useds squash cheques upper < 2 ^ 64
  | .close => ∀ subbed useds upper, self.stage = .opened subbed useds →
    interval.upper = some upper →
      upper.nanos + self.constants.closePeriod.nanos < 2 ^ 64 * 10 ^ 9
  | .respond squash cheques => ∀ subbed useds elapseAt upper,
    self.stage = .closed subbed useds elapseAt → interval.upper = some upper → upper < elapseAt →
      respondOwed useds squash cheques upper < 2 ^ 64 ∧ pendingOwed useds cheques upper < 2 ^ 64
  | .unlock secrets => ∀ amount pendings upper, self.stage = .responded amount pendings →
    interval.upper = some upper →
      pendingsTotal (freed (unlockUnpend crypto secrets upper) pendings) < 2 ^ 64 ∧
        pendingsTotal (pendings.filter fun p => (unlockUnpend crypto secrets upper p).isContinue) <
          2 ^ 64
  | .expire => ∀ amount pendings lower, self.stage = .responded amount pendings →
    interval.lower = some lower → (∃ p ∈ pendings, p.timeout < lower) →
      pendingsTotal (pendings.filter fun p => lower ≤ p.timeout) + 2_000_000 < 2 ^ 64
  | .elapse => True
  | .end => True

section Steps

variable {self : Channel} {crypto : Crypto} {interval : Interval} {r : Except StepError Will}

lemma wantAddChecked_eq_some_iff {amount : UInt64} :
    self.wantAddChecked amount = some r ↔
      (∀ subbed useds, self.stage = .opened subbed useds → amount ≠ 0 →
        self.amount.toNat + amount.toNat < 2 ^ 64) ∧ self.wantAdd amount = r := by
  rw [wantAddChecked, wantAdd]
  cases hstage : self.stage with
  | opened subbed useds =>
    by_cases hzero : amount = 0
    · simp [hzero]
    · simp [hzero, Option.bind_eq_some_iff, Word.checkedAdd_eq_some_iff]
  | closed _ _ _ => simp
  | responded _ _ => simp

lemma wantSubChecked_eq_some_iff {squash : Squash .unverified}
    {cheques : List (Unlocked .unverified)} :
    self.wantSubChecked squash cheques interval = some r ↔
      (∀ subbed useds upper, self.stage = .opened subbed useds → interval.upper = some upper →
        subOwed useds squash cheques upper < 2 ^ 64) ∧
      self.wantSub squash cheques interval = r := by
  rw [wantSubChecked, wantSub]
  cases hstage : self.stage with
  | opened subbed useds =>
    cases hupper : interval.upper with
    | none => simp
    | some upper =>
      simp only [Option.bind_eq_bind]
      rw [← Option.bind_assoc, Option.bind_eq_some_iff]
      simp only [Word.checkedAdd_checkedSum_eq_some_iff, sum_next]
      constructor
      · rintro ⟨_, ⟨hfits, rfl⟩, hr⟩
        refine ⟨fun _ _ _ h hu => ?_, ?_⟩
        · cases h
          cases hu
          exact hfits
        · split_ifs at hr ⊢ with hgain
          · exact Option.some.inj hr
          · rw [checkedSub_gain, Word.checkedAdd_of_lt (add_gain_lt hgain)] at hr
            exact Option.some.inj hr
      · rintro ⟨hfits, rfl⟩
        refine ⟨_, ⟨hfits _ _ _ rfl rfl, rfl⟩, ?_⟩
        split_ifs with hgain
        · rfl
        · rw [checkedSub_gain, Word.checkedAdd_of_lt (add_gain_lt hgain)]
          rfl
  | closed _ _ _ => simp
  | responded _ _ => simp

lemma wantCloseChecked_eq_some_iff :
    self.wantCloseChecked interval = some r ↔
      (∀ subbed useds upper, self.stage = .opened subbed useds → interval.upper = some upper →
        upper.nanos + self.constants.closePeriod.nanos < 2 ^ 64 * 10 ^ 9) ∧
      self.wantClose interval = r := by
  rw [wantCloseChecked, wantClose]
  cases hstage : self.stage with
  | opened subbed useds =>
    cases hupper : interval.upper with
    | none => simp
    | some upper =>
      by_cases hfits : upper.nanos + self.constants.closePeriod.nanos < 2 ^ 64 * 10 ^ 9
      · have hsum : upper.checkedAdd self.constants.closePeriod = some ⟨_, hfits⟩ := dif_pos hfits
        simp only [hsum]
        refine ⟨fun hr => ⟨fun _ _ _ _ hu => ?_, Option.some.inj hr⟩, fun h => congrArg some h.2⟩
        cases hu
        exact hfits
      · have hsum : upper.checkedAdd self.constants.closePeriod = none := dif_neg hfits
        simp only [hsum]
        exact iff_of_false (by simp) fun h => hfits (h.1 _ _ _ rfl rfl)
  | closed _ _ _ => simp
  | responded _ _ => simp

lemma wantRespondChecked_eq_some_iff {squash : Squash .unverified}
    {cheques : List (Cheque .unverified)} :
    self.wantRespondChecked squash cheques interval = some r ↔
      (∀ subbed useds elapseAt upper, self.stage = .closed subbed useds elapseAt →
        interval.upper = some upper → upper < elapseAt →
          respondOwed useds squash cheques upper < 2 ^ 64 ∧
            pendingOwed useds cheques upper < 2 ^ 64) ∧
      self.wantRespond squash cheques interval = r := by
  rw [wantRespondChecked, wantRespond]
  cases hstage : self.stage with
  | opened _ _ => simp
  | closed subbed useds elapseAt =>
    cases hupper : interval.upper with
    | none => simp
    | some upper =>
      by_cases hlate : upper ≥ elapseAt
      · simp only [if_pos hlate, Option.some.injEq]
        refine ⟨fun hr => ⟨fun _ _ _ _ h hu hearly => ?_, hr⟩, And.right⟩
        cases h
        cases hu
        exact absurd hearly hlate.not_gt
      · simp only [if_neg hlate, Option.bind_eq_bind, Option.bind_eq_some_iff,
          prepRespondChecked_eq_some_iff]
        constructor
        · rintro ⟨_, ⟨howed, rfl⟩, _, hadd, _, hsum, _, hsub, hr⟩
          obtain ⟨hfits, rfl⟩ := Word.checkedAdd_eq_some_iff.mp hadd
          obtain ⟨hpending, rfl⟩ := Word.checkedSum_map_eq_some_iff.mp hsum
          rw [checkedSub_gain] at hsub
          obtain rfl := Option.some.inj hsub
          refine ⟨fun _ _ _ _ h hu _ => ?_, Option.some.inj hr⟩
          cases h
          cases hu
          rw [pendingOwed_eq squash]
          exact ⟨respondOwed_lt_iff.mpr ⟨howed, hfits⟩, hpending⟩
        · rintro ⟨h, rfl⟩
          obtain ⟨hfits, hpending⟩ := h _ _ _ _ rfl rfl (not_le.mp hlate)
          obtain ⟨howed, hadd⟩ := respondOwed_lt_iff.mp hfits
          rw [pendingOwed_eq squash] at hpending
          exact ⟨_, ⟨howed, rfl⟩, _, Word.checkedAdd_of_lt hadd, _,
            Word.checkedSum_map_eq_some_iff.mpr ⟨hpending, rfl⟩, _, checkedSub_gain, rfl⟩
  | responded _ _ => simp

lemma wantUnlockChecked_eq_some_iff {secrets : List Secret} :
    self.wantUnlockChecked crypto secrets interval = some r ↔
      (∀ amount pendings upper, self.stage = .responded amount pendings →
        interval.upper = some upper →
          pendingsTotal (freed (unlockUnpend crypto secrets upper) pendings) < 2 ^ 64 ∧
            pendingsTotal (pendings.filter fun p =>
              (unlockUnpend crypto secrets upper p).isContinue) < 2 ^ 64) ∧
      self.wantUnlock crypto secrets interval = r := by
  rw [wantUnlockChecked, wantUnlock]
  cases hstage : self.stage with
  | opened _ _ => simp
  | closed _ _ _ => simp
  | responded amount pendings =>
    cases hupper : interval.upper with
    | none => simp
    | some upper =>
      simp only [map_freed, remaining_eq, Option.bind_eq_bind, Option.bind_eq_some_iff,
        Word.checkedSum_map_eq_some_iff]
      constructor
      · rintro ⟨_, ⟨hfreed, rfl⟩, _, ⟨hremaining, rfl⟩, hr⟩
        refine ⟨fun _ _ _ h hu => ?_, Option.some.inj hr⟩
        cases h
        cases hu
        exact ⟨hfreed, hremaining⟩
      · rintro ⟨h, rfl⟩
        obtain ⟨hfreed, hremaining⟩ := h _ _ _ rfl rfl
        exact ⟨_, ⟨hfreed, rfl⟩, _, ⟨hremaining, rfl⟩, rfl⟩

/-- What is not timed out remains. -/
lemma remaining_expireUnpend (lower : Duration) (pendings : List Pending) :
    remaining pendings (pendings.map (expireUnpend lower)) =
      pendings.filter fun p => lower ≤ p.timeout := by
  rw [remaining_eq]
  refine List.filter_congr fun p _ => ?_
  rw [← Bool.not_not (expireUnpend lower p).isContinue, ← isContinue_expireUnpend, timedOut,
    ← decide_not, decide_eq_decide, not_lt]

lemma wantExpireChecked_eq_some_iff :
    self.wantExpireChecked interval = some r ↔
      (∀ amount pendings lower, self.stage = .responded amount pendings →
        interval.lower = some lower → (∃ p ∈ pendings, p.timeout < lower) →
          pendingsTotal (pendings.filter fun p => lower ≤ p.timeout) < 2 ^ 64) ∧
      self.wantExpire interval = r := by
  rw [wantExpireChecked, wantExpire]
  cases hstage : self.stage with
  | opened _ _ => simp
  | closed _ _ _ => simp
  | responded amount pendings =>
    cases hlower : interval.lower with
    | none => simp
    | some lower =>
      by_cases hlate : ∃ p ∈ pendings, p.timeout < lower
      · simp only [if_neg fun hcont => all_expireUnpend_iff.mp hcont hlate,
          remaining_expireUnpend, Option.bind_eq_bind, Option.bind_eq_some_iff,
          Word.checkedSum_map_eq_some_iff]
        constructor
        · rintro ⟨_, ⟨hremaining, rfl⟩, hr⟩
          refine ⟨fun _ _ _ h hl _ => ?_, Option.some.inj hr⟩
          cases h
          cases hl
          exact hremaining
        · rintro ⟨h, rfl⟩
          exact ⟨_, ⟨h _ _ _ rfl rfl hlate, rfl⟩, rfl⟩
      · simp only [if_pos (all_expireUnpend_iff.mpr hlate), Option.some.injEq]
        refine ⟨fun hr => ⟨fun _ _ _ h hl hlate' => ?_, hr⟩, And.right⟩
        cases h
        cases hl
        exact absurd hlate' hlate

section Expire

variable {amount : UInt64} {pendings : List Pending} {lower : Duration}

lemma wantExpire_eq_ok (hstage : self.stage = .responded amount pendings)
    (hlower : interval.lower = some lower) (hlate : ∃ p ∈ pendings, p.timeout < lower) :
    self.wantExpire interval =
      .ok (.cont
        (self.stepped (pendingsSum (notTimedOut lower pendings))
          (.responded (pendingsSum (notTimedOut lower pendings)) (notTimedOut lower pendings)))
        (.expire (pendings.map (expireUnpend lower)))) := by
  simp only [wantExpire, hstage, hlower, remaining_expireUnpend,
    if_neg fun hcont => all_expireUnpend_iff.mp hcont hlate]
  rfl

/-- An expire is made of a responded channel with a pending that is timed out. -/
lemma exists_of_wantExpire {will : Will} (h : self.wantExpire interval = .ok will) :
    ∃ amount pendings lower, self.stage = .responded amount pendings ∧
      interval.lower = some lower ∧ ∃ p ∈ pendings, p.timeout < lower := by
  rw [wantExpire] at h
  split at h
  · rename_i amount pendings hstage
    split at h
    · cases h
    · rename_i lower hlower
      dsimp only at h
      split_ifs at h with hall
      exact ⟨amount, pendings, lower, hstage, hlower, not_not.mp (mt all_expireUnpend_iff.mpr hall)⟩
  · cases h

end Expire

/-! ### The buffer of the output -/

lemma bufferedAmountChecked_eq_some_iff :
    self.bufferedAmountChecked = some self.bufferedAmount ↔
      self.amount.toNat + 2_000_000 < 2 ^ 64 := by
  rw [bufferedAmountChecked, Word.checkedAdd_eq_some_iff]
  exact and_iff_left rfl

variable {output : Channel} {step : WillCont}

/-- Nothing is added to a channel but by an add or an expire. -/
lemma amount_le_of_resolve {want : Want}
    (h : self.resolve crypto want interval = .ok (.cont output step))
    (hadd : ∀ amount, want ≠ .add amount) (hexpire : want ≠ .expire) :
    output.amount ≤ self.amount := by
  cases want with
  | add amount => exact absurd rfl (hadd amount)
  | expire => exact absurd rfl hexpire
  | sub squash cheques =>
    simp only [resolve, wantSub] at h
    (repeat' split at h) <;> cases h
    exact Word.sub_le (min_le_right _ _)
  | close =>
    simp only [resolve, wantClose] at h
    (repeat' split at h) <;> cases h
    exact le_rfl
  | respond squash cheques =>
    simp only [resolve, wantRespond] at h
    (repeat' split at h) <;> cases h
    exact Word.sub_le (min_le_right _ _)
  | unlock secrets =>
    simp only [resolve, wantUnlock] at h
    (repeat' split at h) <;> cases h
    exact Word.satSub_le _ _
  | elapse =>
    simp only [resolve, wantElapse] at h
    (repeat' split at h) <;> cases h
  | «end» =>
    simp only [resolve, wantEnd] at h
    (repeat' split at h) <;> cases h

/-! ### Exactness -/

/-- What has a result in checked arithmetic has the code's. -/
theorem resolve_eq_of_checked {want : Want}
    (h : self.resolveChecked crypto want interval = some r) :
    self.resolve crypto want interval = r := by
  cases want with
  | add amount => exact (wantAddChecked_eq_some_iff.mp h).2
  | sub squash cheques => exact (wantSubChecked_eq_some_iff.mp h).2
  | close => exact (wantCloseChecked_eq_some_iff.mp h).2
  | respond squash cheques => exact (wantRespondChecked_eq_some_iff.mp h).2
  | unlock secrets => exact (wantUnlockChecked_eq_some_iff.mp h).2
  | expire => exact (wantExpireChecked_eq_some_iff.mp h).2
  | elapse => exact Option.some.inj h
  | «end» => exact Option.some.inj h

/-- The buffer of what continues with no more than there was fits, as it did. -/
lemma buffered_of_le (hbuffer : self.amount.toNat + 2_000_000 < 2 ^ 64)
    (hle : output.amount ≤ self.amount) :
    output.bufferedAmountChecked = some output.bufferedAmount :=
  bufferedAmountChecked_eq_some_iff.mpr
    ((Nat.add_le_add_right (UInt64.le_iff_toNat_le.mp hle) _).trans_lt hbuffer)

/-- A want other than an add or an expire is resolved exactly when the step itself is. -/
lemma resolvesExactly_iff_checked {want : Want}
    (hbuffer : self.amount.toNat + 2_000_000 < 2 ^ 64) (hadd : ∀ amount, want ≠ .add amount)
    (hexpire : want ≠ .expire) :
    self.ResolvesExactly crypto want interval ↔
      self.resolveChecked crypto want interval = some (self.resolve crypto want interval) :=
  ⟨ResolvesExactly.checked, fun h =>
    ⟨h, fun _ _ hok => buffered_of_le hbuffer (amount_le_of_resolve hok hadd hexpire)⟩⟩

lemma add_resolvesExactly_iff {amount : UInt64} :
    self.ResolvesExactly crypto (.add amount) interval ↔
      self.Fits crypto (.add amount) interval := by
  constructor
  · rintro ⟨hchecked, hbuffered⟩ subbed useds hstage hne
    have hfits := (wantAddChecked_eq_some_iff.mp hchecked).1 subbed useds hstage hne
    have hok : self.wantAdd amount =
        .ok (.cont (self.stepped (self.amount + amount) self.stage) (.add amount)) := by
      simp [wantAdd, hstage, hne]
    have hbuffer := bufferedAmountChecked_eq_some_iff.mp (hbuffered _ _ hok)
    change (self.amount + amount).toNat + 2_000_000 < 2 ^ 64 at hbuffer
    rwa [UInt64.toNat_add, Nat.mod_eq_of_lt hfits] at hbuffer
  · intro h
    refine ⟨wantAddChecked_eq_some_iff.mpr ⟨fun subbed useds hstage hne => ?_, rfl⟩, ?_⟩
    · exact (Nat.le_add_right _ _).trans_lt (h subbed useds hstage hne)
    · intro output step hok
      simp only [resolve, wantAdd] at hok
      split at hok
      · rename_i subbed useds hstage
        split_ifs at hok with hzero
        obtain ⟨rfl, -⟩ := Will.cont.inj (Except.ok.inj hok)
        have hfits := h subbed useds hstage hzero
        refine bufferedAmountChecked_eq_some_iff.mpr ?_
        change (self.amount + amount).toNat + 2_000_000 < 2 ^ 64
        rwa [UInt64.toNat_add, Nat.mod_eq_of_lt ((Nat.le_add_right _ _).trans_lt hfits)]
      · cases hok

lemma expire_resolvesExactly_iff :
    self.ResolvesExactly crypto .expire interval ↔ self.Fits crypto .expire interval := by
  constructor
  · rintro ⟨hchecked, hbuffered⟩ amount pendings lower hstage hlower hlate
    have hfits := (wantExpireChecked_eq_some_iff.mp hchecked).1 amount pendings lower hstage
      hlower hlate
    have hok := wantExpire_eq_ok hstage hlower hlate
    have hbuffer := bufferedAmountChecked_eq_some_iff.mp (hbuffered _ _ hok)
    rw [stepped, notTimedOut, toNat_pendingsSum hfits] at hbuffer
    exact hbuffer
  · intro h
    refine ⟨wantExpireChecked_eq_some_iff.mpr ⟨fun amount pendings lower hstage hlower hlate =>
      (Nat.le_add_right _ _).trans_lt (h amount pendings lower hstage hlower hlate), rfl⟩, ?_⟩
    intro output step hok
    obtain ⟨amount, pendings, lower, hstage, hlower, hlate⟩ := exists_of_wantExpire hok
    have hfits := h amount pendings lower hstage hlower hlate
    obtain ⟨rfl, -⟩ := Will.cont.inj (Except.ok.inj
      ((wantExpire_eq_ok hstage hlower hlate).symm.trans hok))
    refine bufferedAmountChecked_eq_some_iff.mpr ?_
    rw [stepped, notTimedOut, toNat_pendingsSum ((Nat.le_add_right _ _).trans_lt hfits)]
    exact hfits

/-- **Arithmetic of a step.**  Of a channel with room for its buffer a want is resolved exactly
just when its totals fit. -/
theorem resolvesExactly_iff (hbuffer : self.amount.toNat + 2_000_000 < 2 ^ 64) (want : Want) :
    self.ResolvesExactly crypto want interval ↔ self.Fits crypto want interval := by
  have hiff := @resolvesExactly_iff_checked self crypto interval want hbuffer
  cases want with
  | add amount => exact add_resolvesExactly_iff
  | expire => exact expire_resolvesExactly_iff
  | sub squash cheques =>
    exact (hiff (by simp) (by simp)).trans
      (wantSubChecked_eq_some_iff.trans (and_iff_left rfl))
  | close =>
    exact (hiff (by simp) (by simp)).trans (wantCloseChecked_eq_some_iff.trans (and_iff_left rfl))
  | respond squash cheques =>
    exact (hiff (by simp) (by simp)).trans
      (wantRespondChecked_eq_some_iff.trans (and_iff_left rfl))
  | unlock secrets =>
    exact (hiff (by simp) (by simp)).trans
      (wantUnlockChecked_eq_some_iff.trans (and_iff_left rfl))
  | elapse => exact (hiff (by simp) (by simp)).trans (iff_of_true rfl trivial)
  | «end» => exact (hiff (by simp) (by simp)).trans (iff_of_true rfl trivial)

end Steps

/-- What is read off an output leaves room for the buffer. -/
lemma buffer_lt_of_tryFrom {self : Channel} {hash : Kernel.ScriptHash} {output : Kernel.Output}
    (h : tryFrom hash output = .ok self) : self.amount.toNat + 2_000_000 < 2 ^ 64 := by
  obtain ⟨constants, stage, hreads⟩ := reads_of_tryFrom h
  have hlt := output.lovelace.toNat_lt
  rw [hreads.amount, toNat_debufferAmount]
  omega

end Channel

end Konduit.Tx2
