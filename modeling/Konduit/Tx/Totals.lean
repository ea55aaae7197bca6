import Konduit.Tx.SteppedUtxos
import Konduit.Tx.Steps
import Konduit.Tx2.Totals

/-!
# What the first builder's arithmetic takes

The steps of the first builder in checked arithmetic (`Channel.stepChecked`), beside those of the
second.  A channel that is read off an output has room for its buffer, so either builder is exact
just when the totals of the step fit in a word (`exact_iff`).
-/

open Lib

namespace Konduit.Tmp.Receipt

open Data

/-- The preparation of a respond, unless a sum overflows. -/
def prepRespondChecked (self : Receipt) (useds : List Used) (upper : Duration) :
    Option (List (Cheque .verified) × List Pending × UInt64) := do
  let usedsAmount ← Word.checkedSum
    ((useds.filter fun u => !self.squash.isIndexSquashed u.index).map Used.amount)
  let cheques := self.cheques.filter fun c =>
    c.timeout > upper && !useds.any fun x => x.index = c.index
  let pendings := (cheques.filterMap Cheque.asLocked).map Pending.ofLocked
  let totalAmount ←
    ((cheques.filterMap Cheque.asUnlocked).map ChequeSigned.amount).foldlM Word.checkedAdd
      usedsAmount
  return (cheques, pendings, totalAmount)

/-- What is owed, unless a sum overflows. -/
def owedChecked (self : Receipt) : Option UInt64 := do
  let unlocked ← Word.checkedSum (self.unlockeds.map ChequeSigned.amount)
  Word.checkedAdd self.squash.amount unlocked

/-- What is committed, unless a sum overflows. -/
def committedChecked (self : Receipt) : Option UInt64 := do
  let amount ← Word.checkedSum (self.cheques.map Cheque.amount)
  Word.checkedAdd self.squash.amount amount

end Konduit.Tmp.Receipt

namespace Konduit.Tx

open Data Tmp Tx2

/-! ### Checked steps -/

namespace Variables

/-- What an add leaves, unless the sum overflows. -/
def addChecked (self : Variables) (amount : UInt64) : Option (Except StepError Variables) :=
  match self.stage with
  | .opened _ _ =>
    if amount = 0 then some (.error .noStep)
    else do
      let amount' ← Word.checkedAdd self.amount amount
      return .ok ⟨amount', self.stage⟩
  | stage => some (.error (.pair (label stage) "Add"))

/-- What a sub leaves, unless it overflows. -/
def subChecked (self : Variables) (gain : UInt64) (useds : List Used) :
    Option (Except StepError Variables) :=
  match self.stage with
  | .opened subbed _ => do
    let amount' ← Word.checkedSub self.amount gain
    let subbed' ← Word.checkedAdd subbed gain
    return .ok ⟨amount', .opened subbed' useds⟩
  | stage => some (.error (.pair (label stage) "Sub"))

/-- What a respond leaves, unless it overflows. -/
def respondChecked (self : Variables) (gain : UInt64) (pendings : List Pending) :
    Option (Except StepError Variables) :=
  match self.stage with
  | .closed _ _ _ => do
    let pendingsAmount ← Word.checkedSum (pendings.map Pending.amount)
    let amount' ← Word.checkedSub self.amount gain
    return .ok ⟨amount', .responded pendingsAmount pendings⟩
  | stage => some (.error (.pair (label stage) "Respond"))

/-- What an unlock leaves, unless the total overflows. -/
def unlockChecked (self : Variables) (gain : UInt64) (pendings : List Pending) :
    Option (Except StepError Variables) :=
  match self.stage with
  | .responded _ _ => do
    let pendingsAmount ← Word.checkedSum (pendings.map Pending.amount)
    return .ok ⟨Word.satSub self.amount gain, .responded pendingsAmount pendings⟩
  | stage => some (.error (.pair (label stage) "Unlock"))

/-- What an expire leaves, unless the total overflows. -/
def expireChecked (self : Variables) (pendings : List Pending) :
    Option (Except StepError Variables) :=
  match self.stage with
  | .responded _ _ => do
    let pendingsAmount ← Word.checkedSum (pendings.map Pending.amount)
    return .ok ⟨pendingsAmount, .responded pendingsAmount pendings⟩
  | stage => some (.error (.pair (label stage) "Expire"))

end Variables

namespace Channel

/-- What the output holds, unless that overflows. -/
def bufferedAmountChecked (self : Channel) : Option UInt64 :=
  Word.checkedAdd self.vars.amount minAdaBuffer

/-- An add, unless it overflows. -/
def addChecked (self : Channel) (amount : UInt64) : Option (Except StepError Stepped) := do
  let vars ← self.vars.addChecked amount
  return vars.map fun vars => ⟨self, .cont .add vars, ⟨none, none⟩⟩

/-- A sub, unless it overflows. -/
def subChecked (self : Channel) (receipt : Receipt) (upper : Duration) :
    Option (Except StepError Stepped) :=
  match self.stage with
  | .opened subbed useds => do
    let (unlockeds, useds) := receipt.prepSub useds upper
    let squash := receipt.squash
    let usedsAmount ← Word.checkedSum (useds.map Used.amount)
    let absoluteOwed ← Word.checkedAdd squash.amount usedsAmount
    let relativeOwed := Word.satSub absoluteOwed subbed
    let gain := min relativeOwed self.vars.amount
    if gain = 0 then some (.error .noStep)
    else
      let vars ← self.vars.subChecked gain useds
      return vars.map fun vars => ⟨self, .cont (.sub (squash.withState .unverified)
        (unlockeds.map (ChequeSigned.withState .unverified))) vars, Bounds.ofUpper upper⟩
  | stage => some (.error (.pair (label stage) "Sub"))

/-- A respond, unless it overflows. -/
def respondChecked (self : Channel) (receipt : Receipt) (upper : Duration) :
    Option (Except StepError Stepped) :=
  match self.stage with
  | .closed subbed useds _ => do
    let (cheques, pendings, usedsAmount) ← receipt.prepRespondChecked useds upper
    let squash := receipt.squash
    let absoluteOwed ← Word.checkedAdd squash.amount usedsAmount
    let relativeOwed := Word.satSub absoluteOwed subbed
    let gain := min relativeOwed self.vars.amount
    let vars ← self.vars.respondChecked gain pendings
    return vars.map fun vars => ⟨self, .cont (.respond (squash.withState .unverified)
      (cheques.map (Cheque.withState .unverified))) vars, Bounds.ofUpper upper⟩
  | stage => some (.error (.pair (label stage) "Respond"))

/-- An unlock, unless it overflows. -/
def unlockWithSecretsChecked (self : Channel) (crypto : Crypto) (secrets : List Secret)
    (upper : Duration) : Option (Except StepError Stepped) :=
  match self.stage with
  | .responded _ pendings => do
    let unpends := pendings.map (unpend crypto secrets upper)
    let kept := (pendings.zip unpends).filter fun x => !x.2.isContinue
    let gain ← Word.checkedSum (kept.map fun x => x.1.amount)
    let vars ← self.vars.unlockChecked gain (kept.map Prod.fst)
    return vars.map fun vars => ⟨self, .cont (.unlock unpends) vars, Bounds.ofUpper upper⟩
  | stage => some (.error (.pair (label stage) "Unlock"))

/-- An expire, unless it overflows. -/
def expireChecked (self : Channel) (lower : Duration) : Option (Except StepError Stepped) :=
  match self.stage with
  | .responded _ pendings =>
    let unpends := pendings.map (expireUnpend lower)
    if unpends.all Unpend.isContinue then some (.error .noStep)
    else do
      let pendings := ((pendings.zip unpends).filter fun x => x.2.isContinue).map Prod.fst
      let vars ← self.vars.expireChecked pendings
      return vars.map fun vars => ⟨self, .cont (.expire unpends) vars, Bounds.ofLower lower⟩
  | stage => some (.error (.pair (label stage) "Expire"))

/-- `step` in checked arithmetic. -/
def stepChecked (self : Channel) (crypto : Crypto) : Call → Option (Except StepError Stepped)
  | .add amount => self.addChecked amount
  | .sub receipt upper => self.subChecked receipt upper
  | .close upper => self.close upper
  | .respond receipt upper => self.respondChecked receipt upper
  | .unlock secrets upper => self.unlockWithSecretsChecked crypto secrets upper
  | .expire lower => self.expireChecked lower

/-- What continues has room for its buffer. -/
def Buffers (r : Except StepError Stepped) : Prop :=
  ∀ stepped channel, r = .ok stepped → stepped.contData = some channel →
    channel.bufferedAmountChecked = some channel.bufferedAmount

/-- Nothing wraps and nothing panics, neither in the step nor in the buffer of the continuing
output. -/
def StepsExactly (self : Channel) (crypto : Crypto) (call : Call) : Prop :=
  ∃ r, self.stepChecked crypto call = some r ∧ self.step crypto call = some r ∧ Buffers r

/-! ### What has to fit -/

/-- The totals that a step adds up fit in a word, and the time at which a close elapses in a
duration. -/
def Fits (self : Channel) (crypto : Crypto) : Call → Prop
  | .add amount => ∀ subbed useds, self.stage = .opened subbed useds → amount ≠ 0 →
    self.vars.amount.toNat + amount.toNat + 2_000_000 < 2 ^ 64
  | .sub receipt upper => ∀ subbed useds, self.stage = .opened subbed useds →
    subOwed useds receipt.squash receipt.unlockeds upper < 2 ^ 64
  | .close upper => ∀ subbed useds, self.stage = .opened subbed useds →
    upper.nanos + self.constants.closePeriod.nanos < 2 ^ 64 * 10 ^ 9
  | .respond receipt upper => ∀ subbed useds elapseAt, self.stage = .closed subbed useds elapseAt →
    respondOwed useds receipt.squash receipt.cheques upper < 2 ^ 64 ∧
      pendingOwed useds receipt.cheques upper < 2 ^ 64
  | .unlock secrets upper => ∀ amount pendings, self.stage = .responded amount pendings →
    pendingsTotal (freed (unpend crypto secrets upper) pendings) < 2 ^ 64
  | .expire lower => ∀ amount pendings, self.stage = .responded amount pendings →
    (∃ p ∈ pendings, p.timeout < lower) →
      pendingsTotal (pendings.filter fun p => lower ≤ p.timeout) + 2_000_000 < 2 ^ 64

end Channel

/-! ### Variables -/

namespace Variables

variable {self : Variables} {gain : UInt64} {pendings : List Pending}
  {r : Except StepError Variables}

lemma subChecked_eq {subbed : UInt64} {useds : List Used}
    (hstage : self.stage = .opened subbed useds) (hle : gain ≤ self.amount)
    (hlt : subbed.toNat + gain.toNat < 2 ^ 64) (useds' : List Used) :
    self.subChecked gain useds' = some (self.sub gain useds') := by
  rw [subChecked, sub, hstage]
  simp only [Word.checkedSub_of_le hle, Word.checkedAdd_of_lt hlt]
  rfl

lemma respondChecked_eq_some_iff {subbed : UInt64} {useds : List Used} {elapseAt : Duration}
    (hstage : self.stage = .closed subbed useds elapseAt) (hle : gain ≤ self.amount) :
    self.respondChecked gain pendings = some r ↔
      pendingsTotal pendings < 2 ^ 64 ∧ self.respond gain pendings = r := by
  rw [respondChecked, respond, hstage]
  simp only [Word.checkedSub_of_le hle, Option.bind_eq_bind, Option.bind_eq_some_iff,
    Word.checkedSum_map_eq_some_iff]
  constructor
  · rintro ⟨_, ⟨hfits, rfl⟩, _, hamount, hr⟩
    obtain rfl := Option.some.inj hamount
    exact ⟨hfits, Option.some.inj hr⟩
  · rintro ⟨hfits, rfl⟩
    exact ⟨_, ⟨hfits, rfl⟩, _, rfl, rfl⟩

section Responded

variable {amount : UInt64} {pendings' : List Pending}

lemma unlockChecked_eq_some_iff (hstage : self.stage = .responded amount pendings') :
    self.unlockChecked gain pendings = some r ↔
      pendingsTotal pendings < 2 ^ 64 ∧ self.unlock gain pendings = r := by
  rw [unlockChecked, unlock, hstage]
  simp only [Option.bind_eq_bind, Option.bind_eq_some_iff, Word.checkedSum_map_eq_some_iff]
  constructor
  · rintro ⟨_, ⟨hfits, rfl⟩, hr⟩
    exact ⟨hfits, Option.some.inj hr⟩
  · rintro ⟨hfits, rfl⟩
    exact ⟨_, ⟨hfits, rfl⟩, rfl⟩

lemma expireChecked_eq_some_iff (hstage : self.stage = .responded amount pendings') :
    self.expireChecked pendings = some r ↔
      pendingsTotal pendings < 2 ^ 64 ∧ self.expire pendings = r := by
  rw [expireChecked, expire, hstage]
  simp only [Option.bind_eq_bind, Option.bind_eq_some_iff, Word.checkedSum_map_eq_some_iff]
  constructor
  · rintro ⟨_, ⟨hfits, rfl⟩, hr⟩
    exact ⟨hfits, Option.some.inj hr⟩
  · rintro ⟨hfits, rfl⟩
    exact ⟨_, ⟨hfits, rfl⟩, rfl⟩

end Responded

end Variables

/-! ### Steps -/

namespace Channel

section Steps

variable {self : Channel} {crypto : Crypto} {receipt : Receipt} {upper : Duration}
  {r : Except StepError Stepped}

lemma addChecked_eq_some_iff {amount : UInt64} :
    self.addChecked amount = some r ↔
      (∀ subbed useds, self.stage = .opened subbed useds → amount ≠ 0 →
        self.vars.amount.toNat + amount.toNat < 2 ^ 64) ∧ self.add amount = r := by
  rw [addChecked, add, Variables.addChecked, Variables.add, stage]
  cases hstage : self.vars.stage with
  | opened subbed useds =>
    by_cases hzero : amount = 0
    · simp [hzero, Except.map, bind, Except.bind]
    · simp [hzero, Option.bind_eq_some_iff, Word.checkedAdd_eq_some_iff, Except.map, bind,
        Except.bind, pure, Except.pure]
  | closed _ _ _ => simp [Except.map, bind, Except.bind]
  | responded _ _ => simp [Except.map, bind, Except.bind]

lemma subChecked_eq_some_iff :
    self.subChecked receipt upper = some r ↔
      (∀ subbed useds, self.stage = .opened subbed useds →
        subOwed useds receipt.squash receipt.unlockeds upper < 2 ^ 64) ∧
      self.sub receipt upper = r := by
  rw [subChecked, sub]
  cases hstage : self.stage with
  | opened subbed useds =>
    have hsum := @sum_next .verified useds receipt.squash receipt.unlockeds upper
    have hvars := fun owed hgain => Variables.subChecked_eq hstage
      (min_le_right (Word.satSub owed subbed) self.vars.amount)
      (add_gain_lt hgain) (receipt.prepSub useds upper).2
    simp only [Option.bind_eq_bind]
    rw [← Option.bind_assoc, Option.bind_eq_some_iff]
    simp only [Word.checkedAdd_checkedSum_eq_some_iff]
    constructor
    · rintro ⟨_, ⟨hfits, rfl⟩, hr⟩
      refine ⟨fun _ _ h => ?_, ?_⟩
      · cases h
        exact hsum ▸ hfits
      · split_ifs at hr ⊢ with hgain
        · exact Option.some.inj hr
        · rw [hvars _ hgain] at hr
          exact Option.some.inj hr
    · rintro ⟨hfits, rfl⟩
      refine ⟨_, ⟨hsum.trans_lt (hfits _ _ rfl), rfl⟩, ?_⟩
      split_ifs with hgain
      · rfl
      · rw [hvars _ hgain]
        rfl
  | closed _ _ _ => simp
  | responded _ _ => simp

lemma prepRespondChecked_eq_some_iff {useds : List Used}
    {x : List (Cheque .verified) × List Pending × UInt64} :
    receipt.prepRespondChecked useds upper = some x ↔
      ((owedUseds useds receipt.squash).map fun u => u.amount.toNat).sum +
        ((paidCheques receipt.cheques useds upper).map fun c => c.amount.toNat).sum < 2 ^ 64 ∧
      receipt.prepRespond useds upper = x := by
  simp only [Receipt.prepRespondChecked, Option.bind_eq_bind, Option.bind_eq_some_iff,
    Word.checkedSum_map_eq_some_iff, Word.foldlM_checkedAdd_eq_some_iff]
  constructor
  · rintro ⟨_, ⟨howed, rfl⟩, _, ⟨hfits, rfl⟩, hx⟩
    rw [Word.toNat_sum_map, Nat.mod_eq_of_lt howed, List.map_map] at hfits
    exact ⟨hfits, Option.some.inj hx⟩
  · rintro ⟨hfits, rfl⟩
    have howed : ((owedUseds useds receipt.squash).map fun u => u.amount.toNat).sum < 2 ^ 64 :=
      (Nat.le_add_right _ _).trans_lt hfits
    refine ⟨_, ⟨howed, rfl⟩, _, ⟨?_, rfl⟩, rfl⟩
    rw [Word.toNat_sum_map, ← owedUseds, Nat.mod_eq_of_lt howed, List.map_map]
    exact hfits

lemma respondChecked_eq_some_iff :
    self.respondChecked receipt upper = some r ↔
      (∀ subbed useds elapseAt, self.stage = .closed subbed useds elapseAt →
        respondOwed useds receipt.squash receipt.cheques upper < 2 ^ 64 ∧
          pendingOwed useds receipt.cheques upper < 2 ^ 64) ∧
      self.respond receipt upper = r := by
  rw [respondChecked, respond]
  cases hstage : self.stage with
  | opened _ _ => simp
  | closed subbed useds elapseAt =>
    simp only [Option.bind_eq_bind, Option.bind_eq_some_iff, prepRespondChecked_eq_some_iff]
    constructor
    · rintro ⟨_, ⟨howed, rfl⟩, _, hadd, _, hvars, hr⟩
      obtain ⟨hfits, rfl⟩ := Word.checkedAdd_eq_some_iff.mp hadd
      obtain ⟨hpending, rfl⟩ :=
        (Variables.respondChecked_eq_some_iff hstage (min_le_right _ _)).mp hvars
      refine ⟨fun _ _ _ h => ?_, Option.some.inj hr⟩
      cases h
      rw [pendingOwed_eq receipt.squash]
      exact ⟨respondOwed_lt_iff.mpr ⟨howed, hfits⟩, hpending⟩
    · rintro ⟨h, rfl⟩
      obtain ⟨hfits, hpending⟩ := h _ _ _ rfl
      obtain ⟨howed, hadd⟩ := respondOwed_lt_iff.mp hfits
      rw [pendingOwed_eq receipt.squash] at hpending
      exact ⟨_, ⟨howed, rfl⟩, _, Word.checkedAdd_of_lt hadd, _,
        (Variables.respondChecked_eq_some_iff hstage (min_le_right _ _)).mpr ⟨hpending, rfl⟩, rfl⟩
  | responded _ _ => simp

lemma unlockWithSecretsChecked_eq_some_iff {secrets : List Secret} :
    self.unlockWithSecretsChecked crypto secrets upper = some r ↔
      (∀ amount pendings, self.stage = .responded amount pendings →
        pendingsTotal (freed (unpend crypto secrets upper) pendings) < 2 ^ 64) ∧
      self.unlockWithSecrets crypto secrets upper = r := by
  rw [unlockWithSecretsChecked, unlockWithSecrets]
  cases hstage : self.stage with
  | opened _ _ => simp
  | closed _ _ _ => simp
  | responded amount pendings =>
    have hkept : ((pendings.zip (pendings.map (unpend crypto secrets upper))).filter
        fun x => !x.2.isContinue).map Prod.fst = freed (unpend crypto secrets upper) pendings :=
      filter_zip_map _ (fun u : Unpend => !u.isContinue) pendings
    simp only [map_freed, hkept, Option.bind_eq_bind, Option.bind_eq_some_iff,
      Word.checkedSum_map_eq_some_iff, Variables.unlockChecked_eq_some_iff hstage]
    constructor
    · rintro ⟨_, ⟨hfits, rfl⟩, _, ⟨-, rfl⟩, hr⟩
      refine ⟨fun _ _ h => ?_, Option.some.inj hr⟩
      cases h
      exact hfits
    · rintro ⟨h, rfl⟩
      have hfits := h _ _ rfl
      exact ⟨_, ⟨hfits, rfl⟩, _, ⟨hfits, rfl⟩, rfl⟩

/-- What an expire keeps are the pendings that do not time out before. -/
lemma kept_expireUnpend (lower : Duration) (pendings : List Pending) :
    ((pendings.zip (pendings.map (expireUnpend lower))).filter fun x => x.2.isContinue).map
      Prod.fst = pendings.filter fun p => lower ≤ p.timeout :=
  Tx2.Channel.remaining_expireUnpend lower pendings

lemma keepsAll_expireUnpend_iff {lower : Duration} {pendings : List Pending} :
    (pendings.map (expireUnpend lower)).all Unpend.isContinue = true ↔
      ¬∃ p ∈ pendings, p.timeout < lower :=
  all_expireUnpend_iff

lemma expireChecked_eq_some_iff {lower : Duration} :
    self.expireChecked lower = some r ↔
      (∀ amount pendings, self.stage = .responded amount pendings →
        (∃ p ∈ pendings, p.timeout < lower) →
          pendingsTotal (pendings.filter fun p => lower ≤ p.timeout) < 2 ^ 64) ∧
      self.expire lower = r := by
  rw [expireChecked, expire]
  cases hstage : self.stage with
  | opened _ _ => simp
  | closed _ _ _ => simp
  | responded amount pendings =>
    by_cases hlate : ∃ p ∈ pendings, p.timeout < lower
    · simp only [if_neg fun hcont => keepsAll_expireUnpend_iff.mp hcont hlate, kept_expireUnpend,
        Option.bind_eq_bind, Option.bind_eq_some_iff, Variables.expireChecked_eq_some_iff hstage]
      constructor
      · rintro ⟨_, ⟨hfits, rfl⟩, hr⟩
        refine ⟨fun _ _ h _ => ?_, Option.some.inj hr⟩
        cases h
        exact hfits
      · rintro ⟨h, rfl⟩
        exact ⟨_, ⟨h _ _ rfl hlate, rfl⟩, rfl⟩
    · simp only [if_pos (keepsAll_expireUnpend_iff.mpr hlate), Option.some.injEq]
      refine ⟨fun hr => ⟨fun _ _ h hlate' => ?_, hr⟩, And.right⟩
      cases h
      exact absurd hlate' hlate

/-! ### The buffer of the output -/

variable {stepped : Stepped} {channel : Channel}

/-- Nothing is added to a channel but by an add or an expire. -/
lemma amount_le_of_step {call : Call} (h : self.step crypto call = some (.ok stepped))
    (hadd : ∀ amount, call ≠ .add amount) (hexpire : ∀ lower, call ≠ .expire lower)
    (hcont : stepped.contData = some channel) : channel.vars.amount ≤ self.vars.amount := by
  cases call with
  | add amount => exact absurd rfl (hadd amount)
  | expire lower => exact absurd rfl (hexpire lower)
  | sub receipt upper =>
    simp only [step, sub, Variables.sub, bind, Except.bind, pure, Except.pure] at h
    (repeat' split at h) <;> cases h
    cases hcont
    rename_i hvars
    (repeat' split at hvars) <;> cases hvars
    exact Word.sub_le (min_le_right _ _)
  | close upper =>
    rw [step, close, Option.bind_eq_bind, Option.bind_eq_some_iff] at h
    obtain ⟨vars | vars, hvars, h⟩ := h <;> cases h
    cases hcont
    rw [Variables.close] at hvars
    split at hvars
    · rw [Option.bind_eq_bind, Option.bind_eq_some_iff] at hvars
      obtain ⟨_, -, hvars⟩ := hvars
      cases hvars
      exact le_rfl
    · cases hvars
  | respond receipt upper =>
    simp only [step, respond, Variables.respond, bind, Except.bind, pure, Except.pure] at h
    (repeat' split at h) <;> cases h
    cases hcont
    rename_i hvars
    (repeat' split at hvars) <;> cases hvars
    exact Word.sub_le (min_le_right _ _)
  | unlock secrets upper =>
    simp only [step, unlockWithSecrets, Variables.unlock, bind, Except.bind, pure, Except.pure] at h
    (repeat' split at h) <;> cases h
    cases hcont
    rename_i hvars
    (repeat' split at hvars) <;> cases hvars
    exact Word.satSub_le _ _

/-! ### Exactness -/

lemma bufferedAmountChecked_eq_some_iff :
    self.bufferedAmountChecked = some self.bufferedAmount ↔
      self.vars.amount.toNat + 2_000_000 < 2 ^ 64 := by
  rw [bufferedAmountChecked, Word.checkedAdd_eq_some_iff]
  exact and_iff_left rfl

/-- A step other than an add or an expire leaves room for the buffer where there was room. -/
lemma buffers_of_step (hbuffer : self.vars.amount.toNat + 2_000_000 < 2 ^ 64) {call : Call}
    (h : self.step crypto call = some r) (hadd : ∀ amount, call ≠ .add amount)
    (hexpire : ∀ lower, call ≠ .expire lower) : Buffers r := by
  rintro stepped channel rfl hcont
  have hle := UInt64.le_iff_toNat_le.mp (amount_le_of_step h hadd hexpire hcont)
  exact bufferedAmountChecked_eq_some_iff.mpr ((Nat.add_le_add_right hle _).trans_lt hbuffer)

lemma stepsExactly_iff_of_buffers {call : Call} {w : Except StepError Stepped} {C : Prop}
    (hchecked : ∀ {r}, self.stepChecked crypto call = some r ↔ C ∧ w = r)
    (hstep : self.step crypto call = some w) (hbuffers : Buffers w) :
    self.StepsExactly crypto call ↔ C := by
  constructor
  · rintro ⟨_, h, -, -⟩
    exact (hchecked.mp h).1
  · intro hC
    exact ⟨w, hchecked.mpr ⟨hC, rfl⟩, hstep, hbuffers⟩

lemma buffers_error (error : StepError) : Buffers (.error error) := by
  intro _ _ h
  cases h

lemma buffers_cont_iff {step : Cont} {vars : Variables} {bounds : Bounds} :
    Buffers (.ok ⟨self, .cont step vars, bounds⟩) ↔ vars.amount.toNat + 2_000_000 < 2 ^ 64 := by
  constructor
  · intro h
    exact bufferedAmountChecked_eq_some_iff.mp (h _ ⟨self.constants, vars⟩ rfl rfl)
  · intro h stepped channel hok hcont
    obtain rfl := Except.ok.inj hok
    obtain rfl := Option.some.inj hcont
    exact bufferedAmountChecked_eq_some_iff.mpr h

lemma buffers_add_iff {amount : UInt64} :
    Buffers (self.add amount) ↔ ∀ subbed useds, self.stage = .opened subbed useds → amount ≠ 0 →
      (self.vars.amount + amount).toNat + 2_000_000 < 2 ^ 64 := by
  rw [add, Variables.add, stage]
  cases hstage : self.vars.stage with
  | opened subbed useds =>
    split_ifs with hzero
    · exact iff_of_true (buffers_error _) fun _ _ _ hne => absurd hzero hne
    · exact buffers_cont_iff.trans ⟨fun h _ _ _ _ => h, fun h => h _ _ rfl hzero⟩
  | closed _ _ _ => exact iff_of_true (buffers_error _) fun _ _ h => by cases h
  | responded _ _ => exact iff_of_true (buffers_error _) fun _ _ h => by cases h

lemma add_stepsExactly_iff {amount : UInt64} :
    self.StepsExactly crypto (.add amount) ↔ self.Fits crypto (.add amount) := by
  have hsum : self.vars.amount.toNat + amount.toNat < 2 ^ 64 →
      (self.vars.amount + amount).toNat = self.vars.amount.toNat + amount.toNat := by
    intro hfits
    rw [UInt64.toNat_add, Nat.mod_eq_of_lt hfits]
  constructor
  · rintro ⟨_, hchecked, -, hbuffers⟩ subbed useds hstage hne
    obtain ⟨hfits, rfl⟩ := addChecked_eq_some_iff.mp hchecked
    rw [← hsum (hfits subbed useds hstage hne)]
    exact buffers_add_iff.mp hbuffers subbed useds hstage hne
  · intro h
    have hfits : ∀ subbed useds, self.stage = .opened subbed useds → amount ≠ 0 →
        self.vars.amount.toNat + amount.toNat < 2 ^ 64 :=
      fun subbed useds hstage hne => (Nat.le_add_right _ _).trans_lt (h subbed useds hstage hne)
    refine ⟨_, addChecked_eq_some_iff.mpr ⟨hfits, rfl⟩, rfl, ?_⟩
    refine buffers_add_iff.mpr fun subbed useds hstage hne => ?_
    rw [hsum (hfits subbed useds hstage hne)]
    exact h subbed useds hstage hne

lemma buffers_expire_iff {lower : Duration} :
    Buffers (self.expire lower) ↔ ∀ amount pendings, self.stage = .responded amount pendings →
      (∃ p ∈ pendings, p.timeout < lower) →
        (pendingsSum (notTimedOut lower pendings)).toNat + 2_000_000 < 2 ^ 64 := by
  rw [expire]
  cases hstage : self.stage with
  | opened _ _ => exact iff_of_true (buffers_error _) fun _ _ h => by cases h
  | closed _ _ _ => exact iff_of_true (buffers_error _) fun _ _ h => by cases h
  | responded amount pendings =>
    rw [stage] at hstage
    simp only [kept_expireUnpend, Variables.expire, hstage]
    split_ifs with hcont
    · exact iff_of_true (buffers_error _) fun _ _ h hlate => by
        cases h
        exact absurd hlate (keepsAll_expireUnpend_iff.mp hcont)
    · refine buffers_cont_iff.trans ⟨fun h _ _ heq _ => ?_, fun h => h _ _ rfl ?_⟩
      · cases heq
        exact h
      · exact not_not.mp (mt keepsAll_expireUnpend_iff.mpr hcont)

lemma expire_stepsExactly_iff {lower : Duration} :
    self.StepsExactly crypto (.expire lower) ↔ self.Fits crypto (.expire lower) := by
  constructor
  · rintro ⟨_, hchecked, -, hbuffers⟩ amount pendings hstage hlate
    obtain ⟨hfits, rfl⟩ := expireChecked_eq_some_iff.mp hchecked
    rw [← toNat_pendingsSum (hfits amount pendings hstage hlate)]
    exact buffers_expire_iff.mp hbuffers amount pendings hstage hlate
  · intro h
    have hfits : ∀ amount pendings, self.stage = .responded amount pendings →
        (∃ p ∈ pendings, p.timeout < lower) →
          pendingsTotal (pendings.filter fun p => lower ≤ p.timeout) < 2 ^ 64 :=
      fun amount pendings hstage hlate =>
        (Nat.le_add_right _ _).trans_lt (h amount pendings hstage hlate)
    refine ⟨_, expireChecked_eq_some_iff.mpr ⟨hfits, rfl⟩, rfl, ?_⟩
    refine buffers_expire_iff.mpr fun amount pendings hstage hlate => ?_
    rw [notTimedOut, toNat_pendingsSum (hfits amount pendings hstage hlate)]
    exact h amount pendings hstage hlate

lemma close_stepsExactly_iff (hbuffer : self.vars.amount.toNat + 2_000_000 < 2 ^ 64) :
    self.StepsExactly crypto (.close upper) ↔ self.Fits crypto (.close upper) := by
  have hdefined : (∃ r, self.close upper = some r) ↔ self.Fits crypto (.close upper) := by
    rw [Fits, close, Variables.close, stage]
    cases hstage : self.vars.stage with
    | opened subbed useds =>
      by_cases hfits : upper.nanos + self.constants.closePeriod.nanos < 2 ^ 64 * 10 ^ 9
      · have hsum : upper.checkedAdd self.constants.closePeriod = some ⟨_, hfits⟩ := dif_pos hfits
        simp only [hsum]
        exact iff_of_true ⟨_, rfl⟩ fun _ _ _ => hfits
      · have hsum : upper.checkedAdd self.constants.closePeriod = none := dif_neg hfits
        simp only [hsum]
        exact iff_of_false (by simp) fun h => hfits (h _ _ rfl)
    | closed _ _ _ => simp
    | responded _ _ => simp
  rw [← hdefined]
  constructor
  · rintro ⟨r, h, -, -⟩
    exact ⟨r, h⟩
  · rintro ⟨r, h⟩
    exact ⟨r, h, h, @buffers_of_step self crypto r hbuffer (.close upper) h (by simp) (by simp)⟩

/-- Of a channel with room for its buffer a step is made exactly just when its totals fit. -/
theorem stepsExactly_iff (hbuffer : self.vars.amount.toNat + 2_000_000 < 2 ^ 64) (call : Call) :
    self.StepsExactly crypto call ↔ self.Fits crypto call := by
  have hbuffers := fun w hstep => @buffers_of_step self crypto w hbuffer call hstep
  cases call with
  | add amount => exact add_stepsExactly_iff
  | expire lower => exact expire_stepsExactly_iff
  | close upper => exact close_stepsExactly_iff hbuffer
  | sub receipt upper =>
    exact stepsExactly_iff_of_buffers subChecked_eq_some_iff rfl
      (hbuffers _ rfl (by simp) (by simp))
  | respond receipt upper =>
    exact stepsExactly_iff_of_buffers respondChecked_eq_some_iff rfl
      (hbuffers _ rfl (by simp) (by simp))
  | unlock secrets upper =>
    exact stepsExactly_iff_of_buffers unlockWithSecretsChecked_eq_some_iff rfl
      (hbuffers _ rfl (by simp) (by simp))

end Steps

/-- The first builder reads what leaves room for the buffer. -/
lemma buffer_lt_of_tryFrom {self : Channel} {hash : Kernel.ScriptHash} {output : Kernel.Output}
    (h : tryFrom hash output = .ok self) : self.vars.amount.toNat + 2_000_000 < 2 ^ 64 := by
  rw [tryFrom] at h
  cases hread : Tx2.Channel.tryFrom hash output with
  | error error =>
    rw [hread] at h
    cases h
  | ok channel =>
    rw [hread] at h
    cases h
    exact Tx2.Channel.buffer_lt_of_tryFrom hread

end Channel

/-! ### Receipts -/

section Receipt

variable {receipt : Receipt}

lemma owedChecked_iff :
    receipt.owedChecked = some receipt.owed ↔ receipt.exactOwed < 2 ^ 64 :=
  Word.checkedAdd_checkedSum_eq_some_iff.trans (and_iff_left rfl)

lemma committedChecked_iff :
    receipt.committedChecked = some receipt.committed ↔ receipt.exactCommitted < 2 ^ 64 :=
  Word.checkedAdd_checkedSum_eq_some_iff.trans (and_iff_left rfl)

end Receipt

/-- **Arithmetic off chain.**  Either builder makes its step of a channel on chain exactly just
when the totals of the step fit, and a receipt counts exactly just when its totals fit. -/
theorem exact_iff {crypto : Crypto} {hash : Kernel.ScriptHash} {output : Kernel.Output}
    {channel : Tx2.Channel} (hchannel : Tx2.Channel.tryFrom hash output = .ok channel)
    {channel' : Channel} (hchannel' : Channel.tryFrom hash output = .ok channel') (want : Want)
    (interval : Interval) (call : Call) (receipt : Receipt) :
    (channel.ResolvesExactly crypto want interval ↔ channel.Fits crypto want interval) ∧
    (channel'.StepsExactly crypto call ↔ channel'.Fits crypto call) ∧
    (receipt.owedChecked = some receipt.owed ↔ receipt.exactOwed < 2 ^ 64) ∧
    (receipt.committedChecked = some receipt.committed ↔ receipt.exactCommitted < 2 ^ 64) :=
  ⟨Tx2.Channel.resolvesExactly_iff (Tx2.Channel.buffer_lt_of_tryFrom hchannel) want,
    Channel.stepsExactly_iff (Channel.buffer_lt_of_tryFrom hchannel') call,
    owedChecked_iff, committedChecked_iff⟩

/-- An add of one ada to a channel of three is exact, with either builder. -/
theorem exact_of_sample :
    (Tx2.Sample.channel 3_000_000 (.opened 0 [])).ResolvesExactly .noCrypto (.add 1_000_000)
        ⟨none, none⟩ ∧
      Channel.StepsExactly ⟨Tx2.Sample.constants, 3_000_000, .opened 0 []⟩ .noCrypto
        (.add 1_000_000) := by
  have hread : Channel.tryFrom Tx2.Sample.hash Tx2.Sample.opened =
      .ok ⟨Tx2.Sample.constants, 3_000_000, .opened 0 []⟩ := rfl
  have hexact := @exact_iff .noCrypto _ _ _ Tx2.Sample.tryFrom_opened _ hread (.add 1_000_000)
    ⟨none, none⟩ (.add 1_000_000) (Tx2.Sample.receipt (.fromSecs 500))
  exact ⟨hexact.1.mpr fun _ _ _ _ => by decide, hexact.2.1.mpr fun _ _ _ _ => by decide⟩

/-- An add of the greatest word to a channel of three ada is made, and what continues has one
lovelace less. -/
theorem not_exact_of_add :
    ∃ channel output, Tx2.Channel.tryFrom Tx2.Sample.hash Tx2.Sample.opened = .ok channel ∧
      channel.resolve .noCrypto (.add Word.maxValue) ⟨none, none⟩ =
        .ok (.cont output (.add Word.maxValue)) ∧
      output.amount + 1 = channel.amount ∧
      ¬channel.ResolvesExactly .noCrypto (.add Word.maxValue) ⟨none, none⟩ := by
  refine ⟨_, _, Tx2.Sample.tryFrom_opened, rfl, rfl, fun h => ?_⟩
  have hchecked := h.checked
  cases hchecked

end Konduit.Tx
