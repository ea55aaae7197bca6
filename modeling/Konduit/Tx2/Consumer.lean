import Konduit.Cardano.Slots
import Konduit.Tx2.Unlock

/-!
# Steps of the consumer

The second builder checks the consumer's steps against the interval it is given; the
transaction carries the interval in whole seconds.  A lower bound is rounded down, and what
is timed out at the one need not be at the other.
-/

open Lib

namespace Konduit.Tx2

open Data Tx Cardano

/-! ### Bounds of the transaction -/

namespace Interval

/-- The slots of the interval. -/
def validity (self : Interval) (params : ProtocolParameters) : ValidityInterval :=
  withValidityInterval
    (match self.lower with
      | none => .none
      | some d => .inclusive (params.posixToSlot d))
    (match self.upper with
      | none => .none
      | some d => .exclusive (params.posixToSlot d))

/-- What the validator is shown of the interval. -/
def bounds (self : Interval) (params : ProtocolParameters) : Kernel.Bounds :=
  (self.validity params).toKernel params.slotConfig

/-- The bounds are whole milliseconds, in 64 bits. -/
structure Canonical (interval : Interval) : Prop where
  lower : ∀ d, interval.lower = some d → d.Canonical
  upper : ∀ d, interval.upper = some d → d.Canonical

/-- The bounds are not before the first Shelley slot. -/
structure Admitted (interval : Interval) (params : ProtocolParameters) : Prop where
  lower : ∀ d, interval.lower = some d → params.Admits d
  upper : ∀ d, interval.upper = some d → params.Admits d

variable {interval : Interval} {params : ProtocolParameters} {d : Duration}

lemma lower_bounds (h : interval.Canonical) (hd : interval.lower = some d) :
    (interval.bounds params).lower = .finite ((1000 * d.asSecs : ℕ) : ℤ) := by
  rw [← toNat_slotToPosix params (h.lower d hd)]
  simp only [bounds, validity, hd, withValidityInterval, ValidityInterval.toKernel]

lemma upper_bounds (h : interval.Canonical) (hd : interval.upper = some d) :
    (interval.bounds params).upper = .finite ((1000 * d.asSecs : ℕ) : ℤ) := by
  rw [← toNat_slotToPosix params (h.upper d hd)]
  simp only [bounds, validity, hd, withValidityInterval, ValidityInterval.toKernel]

end Interval

/-! ### When the steps are accepted -/

/-- The steps of the consumer. -/
def Want.isConsumer : Want → Bool
  | add _ | close | «end» | elapse | expire => true
  | sub _ _ | respond _ _ | unlock _ => false

/-- The pendings that time out before a bound. -/
def timedOut (lower : Duration) (p : Pending) : Bool := p.timeout < lower

/-- When a step of the consumer is accepted, if it is built: what is added makes up for the
buffer and fits in 64 bits; the close period fits in 64 bits after the upper bound; and what
comes before the lower bound comes no later than its whole seconds. -/
def ConsumerHolds (lovelace : UInt64) (closePeriod : Duration) (interval : Interval)
    (stage : Stage) : Want → Prop
  | .add amount =>
    match stage with
    | .opened _ _ =>
      amount ≠ 0 → lovelace.toNat < (max lovelace.toNat 2_000_000 + amount.toNat) % 2 ^ 64
    | _ => True
  | .close =>
    match stage, interval.upper with
    | .opened _ _, some upper => upper.asMillis + closePeriod.asMillis < 2 ^ 64
    | _, _ => True
  | .elapse =>
    match stage, interval.lower with
    | .closed _ _ elapseAt, some lower =>
      elapseAt < lower → elapseAt.asMillis ≤ 1000 * lower.asSecs
    | _, _ => True
  | .end =>
    match stage, interval.lower with
    | .responded _ pendings, some lower =>
      (∀ p ∈ pendings, p.timeout < lower) → ∀ p ∈ pendings, p.timeout.asMillis ≤ 1000 * lower.asSecs
    | _, _ => True
  | .expire =>
    match stage, interval.lower with
    | .responded pendingsAmount pendings, some lower =>
      (∃ p ∈ pendings, p.timeout < lower) →
        (∀ p ∈ pendings, p.timeout < lower → p.timeout.asMillis ≤ 1000 * lower.asSecs) ∧
          Tallies (timedOut lower) pendings pendingsAmount ∧
          (Word.sum ((pendings.filter fun p => !timedOut lower p).map Pending.amount)).toNat +
            2_000_000 < 2 ^ 64
    | _, _ => True
  | _ => True

/-! ### Steps that are built -/

/-- The kernel accepts what is made of a want. -/
def Accepted (crypto : Crypto) (bounds : Kernel.Bounds) (channel : Channel)
    (valueIn : Kernel.Value) (will : Will) : Prop :=
  ∃ vkey, will.run crypto bounds channel.constants.toKernel valueIn channel.stage.toKernel =
    some vkey

section Steps

variable {crypto : Crypto} {channel : Channel} {lovelace : UInt64} {valueIn : Kernel.Value}
  {bounds : Kernel.Bounds} {interval : Interval} {params : ProtocolParameters}

/-! ### Add and close -/

/-- What an add leaves, in 64 bits. -/
lemma toNat_added (hamount : channel.amount = debufferAmount lovelace) (amount : UInt64) :
    (channel.amount + amount + minAdaBuffer).toNat =
      (max lovelace.toNat 2_000_000 + amount.toNat) % 2 ^ 64 := by
  have hbuffer : minAdaBuffer.toNat = 2_000_000 := rfl
  rw [UInt64.toNat_add, UInt64.toNat_add, hamount, toNat_debufferAmount, hbuffer]
  omega

lemma accepted_add_iff (hvalue : Kernel.amountIn valueIn = lovelace.toNat)
    (hamount : channel.amount = debufferAmount lovelace) {subbed : UInt64} {useds : List Used}
    (hstage : channel.stage = .opened subbed useds) (amount : UInt64) :
    Accepted crypto bounds channel valueIn
        (.cont (channel.stepped (channel.amount + amount) channel.stage) (.add amount)) ↔
      lovelace.toNat < (max lovelace.toNat 2_000_000 + amount.toNat) % 2 ^ 64 := by
  rw [← toNat_added hamount amount]
  constructor
  · rintro ⟨_, hrun⟩
    obtain ⟨-, ⟨_, hout, hlt⟩, -⟩ := Kernel.Add.do_eq_some.mp hrun
    obtain rfl := Option.some.inj hout
    rw [hvalue] at hlt
    exact_mod_cast hlt
  · intro hlt
    refine ⟨_, Kernel.Add.do_eq_some.mpr ⟨⟨?_, rfl⟩, ⟨_, Kernel.amountOut_ada _, ?_⟩, rfl⟩⟩
    · rw [hstage]
      exact ⟨_, _, rfl⟩
    · rw [hvalue]
      exact_mod_cast hlt

/-- A close is accepted when the time it sets is what it says in 64 bits. -/
lemma accepted_close_iff (hvalue : Kernel.amountIn valueIn = lovelace.toNat)
    (hamount : channel.amount = debufferAmount lovelace)
    (hperiod : channel.constants.closePeriod.Canonical) {subbed : UInt64} {useds : List Used}
    (hstage : channel.stage = .opened subbed useds) {upper elapseAt : Duration}
    (hupper : upper.Canonical)
    (helapse : elapseAt.nanos = upper.nanos + channel.constants.closePeriod.nanos)
    (hbounds : bounds.upper = .finite ((1000 * upper.asSecs : ℕ) : ℤ)) :
    Accepted crypto bounds channel valueIn
        (.cont (channel.stepped channel.amount (.closed subbed useds elapseAt)) .close) ↔
      upper.asMillis + channel.constants.closePeriod.asMillis < 2 ^ 64 := by
  have hlovelace := toNat_debufferAmount_add lovelace
  rw [← hamount] at hlovelace
  -- all times are whole milliseconds
  have hmillis : elapseAt.asMillis =
      upper.asMillis + channel.constants.closePeriod.asMillis := by
    rw [Duration.asMillis, helapse, Duration.nanos_of_canonical hupper,
      Duration.nanos_of_canonical hperiod]
    omega
  have hle : (1000 * upper.asSecs : ℕ) + channel.constants.closePeriod.asMillis ≤
      elapseAt.asMillis % 2 ^ 64 ↔
        upper.asMillis + channel.constants.closePeriod.asMillis < 2 ^ 64 := by
    have hlt := Duration.asMillis_lt_of_canonical hupper
    have hsecs : 1000 * upper.asSecs ≤ upper.asMillis := by
      rw [Duration.asSecs, Duration.asMillis]
      omega
    rw [hmillis]
    omega
  have htoInt : elapseAt.toInt = (elapseAt.asMillis % 2 ^ 64 : ℕ) := by
    rw [Duration.toInt, Duration.toNat_toU64]
  have hperiodInt := Duration.toInt_of_canonical hperiod
  rw [← hle]
  constructor
  · rintro ⟨_, hrun⟩
    obtain ⟨⟨_, _, _, t, -, hout, ht, htime⟩, -, -⟩ := Kernel.Close.do_eq_some.mp hrun
    obtain ⟨-, -, rfl⟩ := Kernel.Stage.closed.inj hout
    obtain rfl := Kernel.Timebound.finite.inj (hbounds.symm.trans ht)
    have htime : ((1000 * upper.asSecs : ℕ) : ℤ) + channel.constants.closePeriod.toInt ≤
        elapseAt.toInt := htime
    rw [htoInt, hperiodInt] at htime
    exact_mod_cast htime
  · intro hle
    refine ⟨_, Kernel.Close.do_eq_some.mpr ⟨⟨_, _, _, _, ?_, rfl, hbounds, ?_⟩,
      ⟨_, Kernel.amountOut_ada _, ?_⟩, rfl⟩⟩
    · rw [hstage]
      rfl
    · change ((1000 * upper.asSecs : ℕ) : ℤ) + channel.constants.closePeriod.toInt ≤
        elapseAt.toInt
      rw [htoInt, hperiodInt]
      exact_mod_cast hle
    · rw [hvalue]
      exact_mod_cast hlovelace

/-! ### Elapse and end -/

lemma accepted_elapse_iff {subbed : UInt64} {useds : List Used} {elapseAt lower : Duration}
    (hstage : channel.stage = .closed subbed useds elapseAt) (helapse : elapseAt.Canonical)
    (hbounds : bounds.lower = .finite ((1000 * lower.asSecs : ℕ) : ℤ)) :
    Accepted crypto bounds channel valueIn (.eol (.elapse lower)) ↔
      elapseAt.asMillis ≤ 1000 * lower.asSecs := by
  have htoInt := Duration.toInt_of_canonical helapse
  constructor
  · rintro ⟨_, hrun⟩
    change Kernel.Elapse.do bounds.lower _ channel.stage.toKernel = _ at hrun
    rw [hstage] at hrun
    obtain ⟨⟨_, _, _, t, hin, ht, htime⟩, -⟩ := Kernel.Elapse.do_eq_some.mp hrun
    obtain ⟨-, -, rfl⟩ := Kernel.Stage.closed.inj hin
    obtain rfl := Kernel.Timebound.finite.inj (hbounds.symm.trans ht)
    rw [htoInt] at htime
    exact_mod_cast htime
  · intro hle
    refine ⟨channel.constants.addVkey.bytes.1, ?_⟩
    change Kernel.Elapse.do bounds.lower _ channel.stage.toKernel = _
    rw [hstage]
    refine Kernel.Elapse.do_eq_some.mpr ⟨⟨_, _, _, _, rfl, hbounds, ?_⟩, rfl⟩
    rw [htoInt]
    exact_mod_cast hle

lemma accepted_end_iff {pendingsAmount : UInt64} {pendings : List Pending}
    (hstage : channel.stage = .responded pendingsAmount pendings)
    (hcanonical : ∀ p ∈ pendings, p.timeout.Canonical) :
    Accepted crypto bounds channel valueIn (.eol .end) ↔
      ∀ p ∈ pendings, ∃ lower, bounds.lower = .finite lower ∧ (p.timeout.asMillis : ℤ) ≤ lower := by
  have hpend : ∀ p ∈ pendings, p.toKernel.timeout = p.timeout.asMillis :=
    fun p hp => Duration.toInt_of_canonical (hcanonical p hp)
  constructor
  · rintro ⟨_, hrun⟩ p hp
    change Kernel.End.do bounds.lower _ channel.stage.toKernel = _ at hrun
    rw [hstage] at hrun
    obtain ⟨htime, -⟩ := Kernel.End.do_eq_some.mp hrun
    obtain ⟨lower, hlower, hle⟩ := htime p.toKernel (List.mem_map_of_mem hp)
    rw [hpend p hp] at hle
    exact ⟨lower, hlower, hle⟩
  · intro htime
    refine ⟨channel.constants.addVkey.bytes.1, ?_⟩
    change Kernel.End.do bounds.lower _ channel.stage.toKernel = _
    rw [hstage]
    refine Kernel.End.do_eq_some.mpr ⟨?_, rfl⟩
    rw [List.forall_mem_map]
    intro p hp
    rw [hpend p hp]
    exact htime p hp

/-! ### Expire -/

lemma isContinue_expireUnpend {lower : Duration} {p : Pending} :
    timedOut lower p = !(Channel.expireUnpend lower p).isContinue := by
  rw [timedOut, Channel.expireUnpend]
  split_ifs with h
  · simp [h, Unpend.isContinue]
  · simp [h, Unpend.isContinue]

/-- Nothing expires where no pending is timed out. -/
lemma all_expireUnpend_iff {lower : Duration} {pendings : List Pending} :
    (pendings.map (Channel.expireUnpend lower)).all Unpend.isContinue = true ↔
      ¬∃ p ∈ pendings, p.timeout < lower := by
  rw [List.all_map, List.all_eq_true, not_exists]
  refine forall_congr' fun p => ?_
  rw [not_and, Function.comp_apply, ← Bool.not_eq_false', ← isContinue_expireUnpend]
  simp [timedOut]

lemma free_expire_iff {t : Kernel.Timestamp} {unpend : Kernel.Unpend} {pend : Kernel.Pending} :
    Kernel.Expire.free (.finite t) unpend pend = some () ↔ pend.timeout ≤ t := by
  rw [Kernel.Expire.free, Kernel.Timebound.finite?, Option.bind_eq_bind, Option.bind_some]
  exact Kernel.expect_eq_some

lemma accepted_expire_iff {pendingsAmount : UInt64} {pendings : List Pending}
    (hstage : channel.stage = .responded pendingsAmount pendings)
    (hcanonical : ∀ p ∈ pendings, p.timeout.Canonical) {lower : Duration}
    (hbounds : bounds.lower = .finite ((1000 * lower.asSecs : ℕ) : ℤ)) :
    let unpends := pendings.map (Channel.expireUnpend lower)
    let remaining := Channel.remaining pendings unpends
    let pendingsAmount' := Word.sum (remaining.map Pending.amount)
    Accepted crypto bounds channel valueIn
        (.cont (channel.stepped pendingsAmount' (.responded pendingsAmount' remaining))
          (.expire unpends)) ↔
      (∀ p ∈ pendings, p.timeout < lower → p.timeout.asMillis ≤ 1000 * lower.asSecs) ∧
        Tallies (timedOut lower) pendings pendingsAmount ∧
        (Word.sum ((pendings.filter fun p => !timedOut lower p).map Pending.amount)).toNat +
          2_000_000 < 2 ^ 64 := by
  intro unpends remaining pendingsAmount'
  have hrest : (pendings.filter fun p => !timedOut lower p) = remaining := by
    refine Eq.trans (List.filter_congr fun p _ => ?_) (remaining_eq _ pendings).symm
    rw [isContinue_expireUnpend, Bool.not_not]
  have htallies := @tallies_iff (Channel.expireUnpend lower) (timedOut lower) pendings
    (fun _ _ => isContinue_expireUnpend) pendingsAmount
  -- the buffer is on top of what remains unless the sum wraps
  have hbuffer : (pendingsAmount'.toNat : ℤ) + 2_000_000 ≤
      (pendingsAmount' + minAdaBuffer).toNat ↔ pendingsAmount'.toNat + 2_000_000 < 2 ^ 64 := by
    have hbuffer : minAdaBuffer.toNat = 2_000_000 := rfl
    have hlt := pendingsAmount'.toNat_lt
    rw [UInt64.toNat_add, hbuffer]
    omega
  have hfree : (∀ x ∈ Kernel.Pends.freed (unpends.map Unpend.toKernel)
      (pendings.map Pending.toKernel), Kernel.Expire.free bounds.lower x.1 x.2 = some ()) ↔
        ∀ p ∈ pendings, p.timeout < lower → p.timeout.asMillis ≤ 1000 * lower.asSecs := by
    have hpend : ∀ p ∈ pendings, p.toKernel.timeout ≤ ((1000 * lower.asSecs : ℕ) : ℤ) ↔
        p.timeout.asMillis ≤ 1000 * lower.asSecs := by
      intro p hp
      rw [show p.toKernel.timeout = p.timeout.asMillis from
        Duration.toInt_of_canonical (hcanonical p hp)]
      exact Nat.cast_le
    rw [freed_toKernel, List.forall_mem_map, hbounds]
    constructor
    · intro h p hp hlate
      have hfreed : p ∈ freed (Channel.expireUnpend lower) pendings := by
        refine List.mem_filter.mpr ⟨hp, ?_⟩
        rw [← isContinue_expireUnpend]
        exact decide_eq_true hlate
      exact (hpend p hp).mp (free_expire_iff.mp (h p hfreed))
    · intro h p hp
      obtain ⟨hp, hfreed⟩ := List.mem_filter.mp hp
      rw [← isContinue_expireUnpend] at hfreed
      exact free_expire_iff.mpr ((hpend p hp).mpr (h p hp (of_decide_eq_true hfreed)))
  rw [htallies, hrest, ← hfree, ← hbuffer]
  constructor
  · rintro ⟨_, hrun⟩
    change Kernel.Expire.do bounds.lower _ channel.stage.toKernel _ _ _ = _ at hrun
    rw [hstage] at hrun
    obtain ⟨⟨_, hout, hheld⟩, -, hfree, -, htally, -⟩ := Kernel.Expire.do_eq_some.mp hrun
    obtain rfl := Option.some.inj hout
    exact ⟨hfree, htally, hheld⟩
  · rintro ⟨hfree, htally, hheld⟩
    refine ⟨channel.constants.addVkey.bytes.1, ?_⟩
    change Kernel.Expire.do bounds.lower _ channel.stage.toKernel _ _ _ = _
    rw [hstage]
    refine Kernel.Expire.do_eq_some.mpr ⟨⟨_, Kernel.amountOut_ada _, hheld⟩, ?_, hfree, ?_, htally,
      rfl⟩
    · simp [unpends]
    · rw [remaining_toKernel]
      exact congrArg _ (remaining_eq _ pendings)

/-! ### What is built -/

lemma wantAdd_iff (hvalue : Kernel.amountIn valueIn = lovelace.toNat)
    (hamount : channel.amount = debufferAmount lovelace) (amount : UInt64) :
    (∀ will, channel.wantAdd amount = .ok will →
        Accepted crypto (interval.bounds params) channel valueIn will) ↔
      ConsumerHolds lovelace channel.constants.closePeriod interval channel.stage
        (.add amount) := by
  cases h : channel.stage with
  | opened subbed useds =>
    have haccepted := @accepted_add_iff crypto _ _ _ (interval.bounds params) hvalue hamount _ _ h
      amount
    simp only [Channel.wantAdd, h, ConsumerHolds, ← haccepted]
    by_cases hzero : amount = 0
    · simp [hzero]
    · simp [hzero]
  | closed | responded => simp [Channel.wantAdd, h, ConsumerHolds]

lemma wantClose_iff (hvalue : Kernel.amountIn valueIn = lovelace.toNat)
    (hamount : channel.amount = debufferAmount lovelace)
    (hperiod : channel.constants.closePeriod.Canonical) (hinterval : interval.Canonical) :
    (∀ will, channel.wantClose interval = .ok will →
        Accepted crypto (interval.bounds params) channel valueIn will) ↔
      ConsumerHolds lovelace channel.constants.closePeriod interval channel.stage .close := by
  cases h : channel.stage with
  | opened subbed useds =>
    cases hupper : interval.upper with
    | none => simp [Channel.wantClose, h, hupper, ConsumerHolds]
    | some upper =>
      have hcanonical := hinterval.upper upper hupper
      have hsum : upper.nanos + channel.constants.closePeriod.nanos < 2 ^ 64 * 10 ^ 9 := by
        have := Duration.asMillis_lt_of_canonical hcanonical
        have := Duration.asMillis_lt_of_canonical hperiod
        rw [Duration.nanos_of_canonical hcanonical, Duration.nanos_of_canonical hperiod]
        omega
      have haccepted := @accepted_close_iff crypto _ _ _ (interval.bounds params) hvalue hamount
        hperiod _ _ h upper ⟨_, hsum⟩ hcanonical rfl (Interval.upper_bounds hinterval hupper)
      simp only [Channel.wantClose, h, hupper, ConsumerHolds, Duration.checkedAdd, dif_pos hsum,
        ← haccepted]
      simp
  | closed | responded => simp [Channel.wantClose, h, ConsumerHolds]

lemma wantElapse_iff (hstage : channel.stage.Canonical) (hinterval : interval.Canonical) :
    (∀ will, channel.wantElapse interval = .ok will →
        Accepted crypto (interval.bounds params) channel valueIn will) ↔
      ConsumerHolds lovelace channel.constants.closePeriod interval channel.stage .elapse := by
  cases h : channel.stage with
  | closed subbed useds elapseAt =>
    cases hlower : interval.lower with
    | none => simp [Channel.wantElapse, Channel.elapseAt, h, hlower, ConsumerHolds]
    | some lower =>
      rw [h] at hstage
      have haccepted := @accepted_elapse_iff crypto channel valueIn (interval.bounds params) _ _ _ _
        h hstage (Interval.lower_bounds hinterval hlower)
      simp only [Channel.wantElapse, Channel.elapseAt, h, hlower, ConsumerHolds, ← haccepted]
      by_cases hlate : lower ≤ elapseAt
      · simp [hlate]
      · simp [hlate, not_le.mp hlate]
  | opened | responded => simp [Channel.wantElapse, Channel.elapseAt, h, ConsumerHolds]

lemma wantEnd_iff (hstage : channel.stage.Canonical) (hinterval : interval.Canonical) :
    (∀ will, channel.wantEnd interval = .ok will →
        Accepted crypto (interval.bounds params) channel valueIn will) ↔
      ConsumerHolds lovelace channel.constants.closePeriod interval channel.stage .end := by
  cases h : channel.stage with
  | responded pendingsAmount pendings =>
    rw [h] at hstage
    have haccepted := @accepted_end_iff crypto channel valueIn (interval.bounds params) _ _ h hstage
    cases hlower : interval.lower with
    | none =>
      cases pendings with
      | nil => simpa [Channel.wantEnd, h, hlower, ConsumerHolds] using haccepted
      | cons p pendings => simp [Channel.wantEnd, h, hlower, ConsumerHolds]
    | some lower =>
      have hbounds := @Interval.lower_bounds interval params lower hinterval hlower
      have htime : Accepted crypto (interval.bounds params) channel valueIn (.eol .end) ↔
          ∀ p ∈ pendings, p.timeout.asMillis ≤ 1000 * lower.asSecs := by
        rw [haccepted, hbounds]
        refine forall₂_congr fun p _ => ?_
        constructor
        · rintro ⟨_, heq, hle⟩
          obtain rfl := Kernel.Timebound.finite.inj heq
          exact_mod_cast hle
        · exact fun hle => ⟨_, rfl, by exact_mod_cast hle⟩
      have hany : (pendings.any fun q => q.timeout ≥ lower) = true ↔
          ¬∀ q ∈ pendings, q.timeout < lower := by
        simp
      simp only [Channel.wantEnd, h, hlower, ConsumerHolds, ← htime]
      by_cases hlate : ∀ q ∈ pendings, q.timeout < lower
      · rw [if_neg fun hq => hany.mp hq hlate]
        refine Iff.trans ?_ (forall_prop_of_true hlate).symm
        simp
      · have hne : ¬pendings.isEmpty = true := by
          rintro hnil
          obtain rfl := List.isEmpty_iff.mp hnil
          simp at hlate
        rw [if_neg hne, if_pos (hany.mpr hlate)]
        simp [hlate]
  | opened | closed => simp [Channel.wantEnd, h, ConsumerHolds]

lemma wantExpire_iff (hstage : channel.stage.Canonical) (hinterval : interval.Canonical) :
    (∀ will, channel.wantExpire interval = .ok will →
        Accepted crypto (interval.bounds params) channel valueIn will) ↔
      ConsumerHolds lovelace channel.constants.closePeriod interval channel.stage .expire := by
  cases h : channel.stage with
  | responded pendingsAmount pendings =>
    cases hlower : interval.lower with
    | none => simp [Channel.wantExpire, h, hlower, ConsumerHolds]
    | some lower =>
      rw [h] at hstage
      have haccepted := @accepted_expire_iff crypto channel valueIn (interval.bounds params) _ _ h
        hstage _ (Interval.lower_bounds hinterval hlower)
      simp only [Channel.wantExpire, h, hlower, ConsumerHolds, ← haccepted]
      by_cases hlate : ∃ p ∈ pendings, p.timeout < lower
      · rw [if_neg fun hcont => all_expireUnpend_iff.mp hcont hlate]
        simp [hlate]
      · rw [if_pos (all_expireUnpend_iff.mpr hlate)]
        simp [hlate]
  | opened | closed => simp [Channel.wantExpire, h, ConsumerHolds]

end Steps

/-- **Steps of the consumer.**  What the second builder makes of a consumer's want, of a channel
with a datum of its own, is accepted at the bounds of the transaction just when it holds, whatever
the start time of the network and its first Shelley slot. -/
theorem consumer_accepted_iff {crypto : Crypto} {hash ownHash : Kernel.ScriptHash}
    {output : Kernel.Output} {channel : Channel} {constants : Kernel.Constants}
    {stageIn : Kernel.Stage} (hchannel : Channel.tryFrom hash output = .ok channel)
    (hown : channel.Own output) (honChain : output.channel = some ⟨ownHash, constants, stageIn⟩)
    {interval : Interval} (hinterval : interval.Canonical) (params : ProtocolParameters)
    {want : Want} (hwant : want.isConsumer = true) :
    (∀ will, channel.resolve crypto want interval = .ok will →
        ∃ vkey, will.run crypto (interval.bounds params) constants output.value stageIn =
          some vkey) ↔
      ConsumerHolds output.lovelace channel.constants.closePeriod interval channel.stage want := by
  have hreads := Channel.reads_of_onChain hchannel honChain
  have hperiod := hreads.canonical_closePeriod
  have hstage := hreads.canonical_stage
  rw [← hreads.constants_toKernel hown, ← hreads.stage_toKernel hown]
  have hvalue := Kernel.Output.amountIn_value output
  cases want with
  | add amount => exact wantAdd_iff hvalue hreads.amount amount
  | close => exact wantClose_iff hvalue hreads.amount hperiod hinterval
  | elapse => exact wantElapse_iff hstage hinterval
  | «end» => exact wantEnd_iff hstage hinterval
  | expire => exact wantExpire_iff hstage hinterval
  | sub | respond | unlock => cases hwant

/-! ### A channel that elapses within a second -/

namespace Sample

/-- A closed channel that elapses a tenth of a second after second 1700000000. -/
def elapsing : Kernel.Output :=
  output 3_000_000 (.constr 1 [.int 0, .list [], .int 1_700_000_000_100])

lemma tryFrom_elapsing :
    Channel.tryFrom hash elapsing =
      .ok (channel 1_000_000 (.closed 0 [] (.fromMillis 1_700_000_000_100))) := by
  rfl

lemma channel_elapsing :
    elapsing.channel = some ⟨hash, constants.toKernel, .closed 0 [] 1_700_000_000_100⟩ := by
  rfl

lemma own_elapsing :
    (channel 1_000_000 (.closed 0 [] (.fromMillis 1_700_000_000_100))).Own elapsing :=
  ⟨_, channel_elapsing⟩

/-- An interval with a lower bound only. -/
def intervalFrom (millis : UInt64) : Interval := ⟨some (.fromMillis millis), none⟩

lemma canonical_intervalFrom (millis : UInt64) : (intervalFrom millis).Canonical := by
  constructor
  · rintro _ ⟨⟩
    exact Duration.canonical_fromMillis millis
  · rintro _ ⟨⟩

/-- The parameters of a test network. -/
def preprod : ProtocolParameters := ⟨1_654_041_600, 86_400⟩

lemma admitted_intervalFrom {millis : UInt64} (h : preprod.Admits (.fromMillis millis)) :
    (intervalFrom millis).Admitted preprod := by
  constructor
  · rintro _ ⟨⟩
    exact h
  · rintro _ ⟨⟩

end Sample

/-- From the next second on the channel elapses on chain. -/
theorem consumer_accepted_of_sample :
    ∃ will, (Sample.channel 1_000_000 (.closed 0 [] (.fromMillis 1_700_000_000_100))).resolve
        .noCrypto .elapse (Sample.intervalFrom 1_700_000_001_000) = .ok will ∧
      ∃ vkey, will.run .noCrypto ((Sample.intervalFrom 1_700_000_001_000).bounds Sample.preprod)
        Sample.constants.toKernel Sample.elapsing.value (.closed 0 [] 1_700_000_000_100) =
          some vkey := by
  have hholds : ConsumerHolds 3_000_000 Sample.constants.closePeriod
      (Sample.intervalFrom 1_700_000_001_000) (.closed 0 [] (.fromMillis 1_700_000_000_100))
      .elapse :=
    fun _ => by decide
  have haccepted := @consumer_accepted_iff .noCrypto _ _ _ _ _ _ Sample.tryFrom_elapsing
    Sample.own_elapsing Sample.channel_elapsing _ (Sample.canonical_intervalFrom 1_700_000_001_000)
    Sample.preprod .elapse rfl
  exact ⟨_, rfl, haccepted.mpr hholds _ rfl⟩

/-- Within the second a step is built that the kernel does not accept. -/
theorem consumer_not_accepted :
    ¬∀ (crypto : Crypto) (hash ownHash : Kernel.ScriptHash) (output : Kernel.Output)
      (channel : Channel) (constants : Kernel.Constants) (stageIn : Kernel.Stage)
      (interval : Interval) (params : ProtocolParameters) (want : Want) (will : Will),
      Channel.tryFrom hash output = .ok channel →
      channel.Own output →
      output.channel = some ⟨ownHash, constants, stageIn⟩ →
      interval.Canonical → interval.Admitted params → want.isConsumer = true →
      channel.resolve crypto want interval = .ok will →
      ∃ vkey, will.run crypto (interval.bounds params) constants output.value stageIn =
        some vkey := by
  intro h
  obtain ⟨vkey, hvkey⟩ := h .noCrypto Sample.hash _ Sample.elapsing _ _ _
    (Sample.intervalFrom 1_700_000_000_900) Sample.preprod .elapse _ Sample.tryFrom_elapsing
    Sample.own_elapsing Sample.channel_elapsing (Sample.canonical_intervalFrom 1_700_000_000_900)
    (Sample.admitted_intervalFrom (by decide : _ ≤ _)) rfl rfl
  have hnone : none = some vkey := hvkey
  cases hnone

end Konduit.Tx2
