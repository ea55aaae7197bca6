import Konduit.Lib.Ratio
import Mathlib.Algebra.BigOperators.Field

/-!
# The fee for referenced scripts

The bytes of the scripts are charged in tiers of `referenced_scripts_fee_step_size` bytes, and each
tier costs `referenced_scripts_fee_multiplier` times as much as the tier before it.  The code takes
one tier off in a round of its loop, and adds up the cost as a fraction of words.  So it ends only
where the tiers have a size, which those of the default parameters do not; and the cost must fit in
words after every tier (`charges_iff`).
-/

namespace Konduit.Cardano.ReferencedScripts

open Lib Finset

/-! ### Tiers -/

section Tiers

variable (multiplier : ℚ) (step : ℕ)

/-- The cost of some tiers, of which the first costs `fee` a byte. -/
def tiersCost (fee : ℚ) (tiers : ℕ) : ℚ :=
  ∑ k ∈ range tiers, fee * multiplier ^ k * step

/-- The sum over all bytes of what the tier of the byte costs. -/
def bytesCost (fee : ℚ) (size : ℕ) : ℚ :=
  ∑ i ∈ range size, fee * multiplier ^ (i / step)

/-- What is computed along the way, from a cost and the fee of the next tier, fits in words. -/
structure FitsFrom (cost fee : ℚ) (size : ℕ) : Prop where
  fee_holds : ∀ k < size / step, Holds (fee * multiplier ^ k * multiplier)
  tier_holds : ∀ k < size / step, Holds (fee * multiplier ^ k * step)
  tiers_aligned : ∀ k < size / step,
    Aligned (cost + tiersCost multiplier step fee k) (fee * multiplier ^ k * step)
  rest_holds : Holds (fee * multiplier ^ (size / step) * (size % step : ℕ))
  rest_aligned : Aligned (cost + tiersCost multiplier step fee (size / step))
    (fee * multiplier ^ (size / step) * (size % step : ℕ))

variable {multiplier} {step} {cost fee : ℚ} {size : ℕ}

lemma tiersCost_succ (tiers : ℕ) :
    tiersCost multiplier step fee (tiers + 1) =
      fee * step + tiersCost multiplier step (fee * multiplier) tiers := by
  rw [tiersCost, sum_range_succ', add_comm, pow_zero, mul_one, tiersCost]
  congr 1
  exact sum_congr rfl fun k _ => by rw [pow_succ', ← mul_assoc fee]

lemma bytesCost_of_lt (h : size < step) : bytesCost multiplier step fee size = fee * size := by
  have hbyte : ∀ i ∈ range size, fee * multiplier ^ (i / step) = fee := by
    intro i hi
    rw [Nat.div_eq_of_lt ((mem_range.mp hi).trans h), pow_zero, mul_one]
  rw [bytesCost, sum_congr rfl hbyte, sum_const, card_range, nsmul_eq_mul, mul_comm]

lemma bytesCost_add_step (hstep : 0 < step) :
    bytesCost multiplier step fee (size + step) =
      fee * step + bytesCost multiplier step (fee * multiplier) size := by
  have hfirst : ∑ i ∈ range step, fee * multiplier ^ (i / step) = fee * step := by
    rw [sum_congr rfl fun i hi => by rw [Nat.div_eq_of_lt (mem_range.mp hi), pow_zero, mul_one],
      sum_const, card_range, nsmul_eq_mul, mul_comm]
  rw [bytesCost, add_comm size, sum_range_add, hfirst, bytesCost]
  congr 1
  refine sum_congr rfl fun i _ => ?_
  rw [Nat.add_div_left i hstep, pow_succ', mul_assoc]

/-- The full tiers, and the bytes that do not fill one. -/
lemma bytesCost_eq (hstep : 0 < step) :
    bytesCost multiplier step fee size =
      tiersCost multiplier step fee (size / step) +
        fee * multiplier ^ (size / step) * (size % step : ℕ) := by
  induction size using Nat.strong_induction_on generalizing fee with
  | _ size ih =>
    by_cases h : size < step
    · simp [bytesCost_of_lt h, Nat.div_eq_of_lt h, Nat.mod_eq_of_lt h, tiersCost]
    · obtain ⟨rest, rfl⟩ := Nat.exists_eq_add_of_le' (Nat.not_lt.mp h)
      rw [bytesCost_add_step hstep, ih rest (by omega), Nat.add_div_right rest hstep,
        Nat.add_mod_right, tiersCost_succ, pow_succ', ← mul_assoc, add_assoc]

lemma bytesCost_mono (hmul : 0 ≤ multiplier) (hfee : 0 ≤ fee) :
    Monotone (bytesCost multiplier step fee) := by
  intro a b hab
  refine sum_le_sum_of_subset_of_nonneg (range_subset_range.mpr hab) fun i _ _ => ?_
  exact mul_nonneg hfee (pow_nonneg hmul _)

lemma FitsFrom.holds_tiersCost (h : FitsFrom multiplier step cost fee size) (hcost : Holds cost)
    {tiers : ℕ} (htiers : tiers ≤ size / step) :
    Holds (cost + tiersCost multiplier step fee tiers) := by
  induction tiers with
  | zero => simpa [tiersCost] using hcost
  | succ tiers ih =>
    rw [tiersCost, sum_range_succ, ← add_assoc]
    exact (ih (by omega)).add (h.tier_holds tiers htiers) (h.tiers_aligned tiers htiers)

lemma FitsFrom.holds_bytesCost (h : FitsFrom multiplier step cost fee size) (hcost : Holds cost)
    (hstep : 0 < step) : Holds (cost + bytesCost multiplier step fee size) := by
  rw [bytesCost_eq hstep, ← add_assoc]
  exact (h.holds_tiersCost hcost le_rfl).add h.rest_holds h.rest_aligned

lemma fitsFrom_of_lt (h : size < step) :
    FitsFrom multiplier step cost fee size ↔ Holds (fee * size) ∧ Aligned cost (fee * size) := by
  have hdiv : size / step = 0 := Nat.div_eq_of_lt h
  have hmod : size % step = size := Nat.mod_eq_of_lt h
  constructor
  · intro hfits
    simpa [hdiv, hmod, tiersCost] using And.intro hfits.rest_holds hfits.rest_aligned
  · intro hrest
    constructor <;> simp [hdiv, hmod, tiersCost, hrest]

/-- One round takes one tier off. -/
lemma fitsFrom_add_step (hstep : 0 < step) :
    FitsFrom multiplier step cost fee (size + step) ↔
      (Holds (fee * step) ∧ Aligned cost (fee * step)) ∧ Holds (fee * multiplier) ∧
        FitsFrom multiplier step (cost + fee * step) (fee * multiplier) size := by
  have hdiv : (size + step) / step = size / step + 1 := Nat.add_div_right size hstep
  have hmod : (size + step) % step = size % step := Nat.add_mod_right size step
  have hpow : ∀ k, fee * multiplier ^ (k + 1) = fee * multiplier * multiplier ^ k := by
    intro k
    rw [pow_succ', ← mul_assoc]
  have hcost : ∀ k, cost + tiersCost multiplier step fee (k + 1) =
      cost + fee * step + tiersCost multiplier step (fee * multiplier) k := by
    intro k
    rw [tiersCost_succ, add_assoc]
  constructor
  · rintro ⟨hfee, htier, htiers, hrest, haligned⟩
    rw [hdiv] at hfee htier htiers hrest haligned
    rw [hmod] at hrest haligned
    rw [Nat.forall_lt_succ_left] at hfee htier htiers
    simp only [hpow, hcost] at hfee htier htiers hrest haligned
    have hadd := by simpa [tiersCost] using htiers.1
    refine ⟨⟨by simpa using htier.1, hadd⟩, by simpa using hfee.1, ?_⟩
    exact ⟨hfee.2, htier.2, htiers.2, hrest, haligned⟩
  · rintro ⟨⟨hfirst, hadd⟩, hnext, hfee, htier, htiers, hrest, haligned⟩
    constructor
    · rw [hdiv, Nat.forall_lt_succ_left]
      simp only [hpow]
      exact ⟨by simpa using hnext, hfee⟩
    · rw [hdiv, Nat.forall_lt_succ_left]
      simp only [hpow]
      exact ⟨by simpa using hfirst, htier⟩
    · rw [hdiv, Nat.forall_lt_succ_left]
      simp only [hpow, hcost]
      exact ⟨by simpa [tiersCost] using hadd, htiers⟩
    · rwa [hdiv, hmod, hpow]
    · rwa [hdiv, hmod, hpow, hcost]

/-! Over the denominator of the last tier, all of it is made of naturals. -/

/-- The numerator of the fee of a tier, for the multiplier `p / q`. -/
def feeNumerator (p q fee tiers k : ℕ) : ℕ := fee * p ^ k * q ^ (tiers - k)

lemma feeNumerator_le (p q fee : ℕ) {tiers k : ℕ} (h : k ≤ tiers) :
    feeNumerator p q fee tiers k ≤ fee * max p q ^ tiers := by
  have hp : p ^ k ≤ max p q ^ k := Nat.pow_le_pow_left (le_max_left p q) k
  have hq : q ^ (tiers - k) ≤ max p q ^ (tiers - k) := Nat.pow_le_pow_left (le_max_right p q) _
  calc fee * p ^ k * q ^ (tiers - k) ≤ fee * max p q ^ k * max p q ^ (tiers - k) :=
        Nat.mul_le_mul (Nat.mul_le_mul_left fee hp) hq
    _ = fee * max p q ^ tiers := by rw [mul_assoc, ← pow_add, Nat.add_sub_cancel' h]

section Naturals

variable {p q b tiers k : ℕ}

lemma fee_eq_div (hq : 0 < q) (h : k ≤ tiers) :
    (b : ℚ) * (p / q : ℚ) ^ k = (feeNumerator p q b tiers k : ℕ) / (q ^ tiers : ℕ) := by
  have hne : (q : ℚ) ≠ 0 := by exact_mod_cast hq.ne'
  have hpow : (q : ℚ) ^ tiers = q ^ k * q ^ (tiers - k) := by
    rw [← pow_add, Nat.add_sub_cancel' h]
  push_cast [feeNumerator]
  rw [hpow, div_pow]
  field_simp

lemma bytes_eq_div (hq : 0 < q) (h : k ≤ tiers) (n : ℕ) :
    (b : ℚ) * (p / q : ℚ) ^ k * n =
      ((feeNumerator p q b tiers k * n : ℕ) : ℚ) / (q ^ tiers : ℕ) := by
  rw [fee_eq_div hq h, Nat.cast_mul]
  ring

lemma tiersCost_eq_div (hq : 0 < q) (h : k ≤ tiers) :
    tiersCost (p / q) step b k =
      ((∑ i ∈ range k, feeNumerator p q b tiers i * step : ℕ) : ℚ) / (q ^ tiers : ℕ) := by
  rw [tiersCost, Nat.cast_sum, Finset.sum_div]
  refine sum_congr rfl fun i hi => ?_
  exact bytes_eq_div hq ((mem_range.mp hi).le.trans h) step

lemma sum_feeNumerator_le (h : k ≤ tiers) :
    ∑ i ∈ range k, feeNumerator p q b tiers i * step ≤ b * max p q ^ tiers * (k * step) := by
  have hterm : ∀ i ∈ range k, feeNumerator p q b tiers i * step ≤ b * max p q ^ tiers * step :=
    fun i hi => Nat.mul_le_mul_right step (feeNumerator_le p q b ((mem_range.mp hi).le.trans h))
  calc ∑ i ∈ range k, feeNumerator p q b tiers i * step
      ≤ ∑ _i ∈ range k, b * max p q ^ tiers * step := sum_le_sum hterm
    _ = b * max p q ^ tiers * (k * step) := by rw [sum_const, card_range, smul_eq_mul]; ring

/-- Some bytes of a tier, after those of the tiers before it. -/
lemma sum_add_feeNumerator_le (h : k ≤ tiers) (n : ℕ) :
    (∑ i ∈ range k, feeNumerator p q b tiers i * step) + feeNumerator p q b tiers k * n ≤
      b * max p q ^ tiers * (k * step + n) := by
  rw [mul_add]
  exact Nat.add_le_add (sum_feeNumerator_le h) (Nat.mul_le_mul_right n (feeNumerator_le p q b h))

/-- It fits where every byte could be charged at the highest numerator. -/
theorem fitsFrom_of_bound (hq : 0 < q) (hden : q ^ (size / step) < 2 ^ 64)
    (hnum : b * max p q ^ (size / step) * size < 2 ^ 64) :
    FitsFrom (p / q) step 0 b size := by
  set tiers := size / step with htiers
  have hpos : 0 < q ^ tiers := Nat.pow_pos hq
  have hsize : tiers * step + size % step = size := Nat.div_add_mod' size step
  have hbytes : ∀ k ≤ tiers, ∀ n, k * step + n ≤ size →
      (∑ i ∈ range k, feeNumerator p q b tiers i * step) + feeNumerator p q b tiers k * n <
        2 ^ 64 := by
    intro k hk n hn
    exact (sum_add_feeNumerator_le hk n).trans_lt ((Nat.mul_le_mul_left _ hn).trans_lt hnum)
  have hfull : ∀ k < tiers, k * step + step ≤ size := by
    intro k hk
    have := Nat.mul_le_mul_right step (Nat.succ_le_of_lt hk)
    rw [Nat.succ_mul] at this
    omega
  have haligned : ∀ k ≤ tiers, ∀ n, k * step + n ≤ size →
      Aligned (0 + tiersCost (p / q) step b k) ((b : ℚ) * (p / q : ℚ) ^ k * n) := by
    intro k hk n hn
    rw [zero_add, tiersCost_eq_div hq hk, bytes_eq_div hq hk]
    exact .div hpos hden (hbytes k hk n hn)
  have hholds : ∀ k ≤ tiers, ∀ n, k * step + n ≤ size →
      Holds ((b : ℚ) * (p / q : ℚ) ^ k * n) := by
    intro k hk n hn
    rw [bytes_eq_div hq hk]
    exact .div hpos hden (lt_of_le_of_lt (Nat.le_add_left _ _) (hbytes k hk n hn))
  constructor
  · intro k hk
    have hone : 1 ≤ size := Nat.pos_of_ne_zero fun hzero => by simp [hzero] at hk
    have hfee : b * max p q ^ tiers ≤ b * max p q ^ tiers * size := Nat.le_mul_of_pos_right _ hone
    rw [mul_assoc, ← pow_succ, fee_eq_div hq (Nat.succ_le_of_lt hk)]
    exact .div hpos hden (((feeNumerator_le p q b hk).trans hfee).trans_lt hnum)
  · exact fun k hk => hholds k hk.le step (hfull k hk)
  · exact fun k hk => haligned k hk.le step (hfull k hk)
  · exact hholds tiers le_rfl _ hsize.le
  · exact haligned tiers le_rfl _ hsize.le

end Naturals

end Tiers

/-! ### The loop -/

/-- The parameters that the fee depends on. -/
structure ProtocolParameters where
  referencedScriptsBaseFeePerByte : UInt64
  referencedScriptsFeeMultiplier : Ratio
  referencedScriptsFeeStepSize : UInt64

namespace ProtocolParameters

/-- The default parameters. -/
def default : ProtocolParameters where
  referencedScriptsBaseFeePerByte := 0
  referencedScriptsFeeMultiplier := .ofWord 1
  referencedScriptsFeeStepSize := 0

/-- The parameters of the main network. -/
def mainnet : ProtocolParameters where
  referencedScriptsBaseFeePerByte := 15
  referencedScriptsFeeMultiplier := ⟨12 / 10, by decide +kernel⟩
  referencedScriptsFeeStepSize := 25000

end ProtocolParameters

/-- What has become of the loop. -/
inductive Outcome where
  | running
  | overflow
  | fee (fee : UInt64)
  deriving DecidableEq

section Loop

variable (num : Ratio.Arithmetic) (self : ProtocolParameters)

/-- The cost with the bytes that do not fill a tier. -/
def lastTier (size : UInt64) (cost feePerByte : Ratio) : Option Ratio := do
  num.add cost (← num.mulWord feePerByte size)

/-- The cost with a full tier, and the fee of the next one. -/
def fullTier (cost feePerByte : Ratio) : Option (Ratio × Ratio) := do
  let cost ← num.add cost (← num.mulWord feePerByte self.referencedScriptsFeeStepSize)
  let feePerByte ← num.mul feePerByte self.referencedScriptsFeeMultiplier
  return (cost, feePerByte)

/-- The loop, as far as it gets in some rounds. -/
def loop : ℕ → UInt64 → Ratio → Ratio → Outcome
  | 0, _, _, _ => .running
  | rounds + 1, size, cost, feePerByte =>
    if size < self.referencedScriptsFeeStepSize then
      match lastTier num size cost feePerByte with
      | some total => .fee total.floor
      | none => .overflow
    else
      match fullTier num self cost feePerByte with
      | some (cost, feePerByte) =>
        loop rounds (size - self.referencedScriptsFeeStepSize) cost feePerByte
      | none => .overflow

/-- The fee for reference scripts of a size, in so many rounds of the loop. -/
def referencedScriptsFee (rounds : ℕ) (size : UInt64) : Outcome :=
  loop num self rounds size .zero (.ofWord self.referencedScriptsBaseFeePerByte)

example : referencedScriptsFee Ratio.arithmetic .mainnet 2 30000 = .fee 465000 := by
  decide +kernel

/-- The loop ends, without an overflow. -/
def Returns (size fee : UInt64) : Prop :=
  ∃ rounds, referencedScriptsFee num self rounds size = .fee fee

/-- The sum over all bytes of what the tier of the byte costs. -/
def exactCost (size : UInt64) : ℚ :=
  bytesCost self.referencedScriptsFeeMultiplier.1 self.referencedScriptsFeeStepSize.toNat
    self.referencedScriptsBaseFeePerByte.toNat size.toNat

/-- The loop ends, and returns the sum rounded down. -/
def Charges (size : UInt64) : Prop :=
  ∃ fee, Returns num self size fee ∧ fee.toNat = ⌊exactCost self size⌋₊

/-- What is computed along the way fits in words. -/
def Fits (size : UInt64) : Prop :=
  FitsFrom self.referencedScriptsFeeMultiplier.1 self.referencedScriptsFeeStepSize.toNat 0
    self.referencedScriptsBaseFeePerByte.toNat size.toNat

end Loop

section Rounds

variable {num : Ratio.Arithmetic} {self : ProtocolParameters} {size fee : UInt64}
  {cost feePerByte : Ratio}

lemma lastTier_eq_some_iff {total : Ratio} :
    lastTier num size cost feePerByte = some total ↔
      total.1 = cost.1 + feePerByte.1 * size.toNat ∧
        Holds (feePerByte.1 * size.toNat) ∧ Aligned cost.1 (feePerByte.1 * size.toNat) := by
  simp only [lastTier, Option.bind_eq_bind, Option.bind_eq_some_iff]
  constructor
  · rintro ⟨rest, hrest, htotal⟩
    rw [num.mulWord_eq_some_iff] at hrest
    rw [num.add_eq_some_iff, hrest] at htotal
    exact ⟨htotal.1, hrest ▸ rest.2, htotal.2⟩
  · rintro ⟨htotal, hrest, haligned⟩
    exact ⟨⟨_, hrest⟩, num.mulWord_eq_some_iff.mpr rfl, num.add_eq_some_iff.mpr ⟨htotal, haligned⟩⟩

lemma fullTier_eq_some_iff {cost' feePerByte' : Ratio} :
    fullTier num self cost feePerByte = some (cost', feePerByte') ↔
      lastTier num self.referencedScriptsFeeStepSize cost feePerByte = some cost' ∧
        feePerByte'.1 = feePerByte.1 * self.referencedScriptsFeeMultiplier.1 := by
  rw [← num.mul_eq_some_iff]
  simp only [fullTier, lastTier, Option.bind_eq_bind, Option.bind_eq_some_iff, Option.pure_def,
    Option.some_inj, Prod.mk.injEq]
  grind

lemma loop_of_lt (h : size < self.referencedScriptsFeeStepSize) :
    (∃ rounds, loop num self rounds size cost feePerByte = .fee fee) ↔
      ∃ total, lastTier num size cost feePerByte = some total ∧ total.floor = fee := by
  constructor
  · rintro ⟨rounds, hloop⟩
    cases rounds with
    | zero => cases hloop
    | succ rounds =>
      rw [loop, if_pos h] at hloop
      cases htotal : lastTier num size cost feePerByte with
      | none => simp only [htotal, reduceCtorEq] at hloop
      | some total =>
        simp only [htotal, Outcome.fee.injEq] at hloop
        exact ⟨total, rfl, hloop⟩
  · rintro ⟨total, htotal, rfl⟩
    exact ⟨1, by rw [loop, if_pos h]; simp only [htotal]⟩

lemma loop_of_le (h : ¬size < self.referencedScriptsFeeStepSize) :
    (∃ rounds, loop num self rounds size cost feePerByte = .fee fee) ↔
      ∃ cost' feePerByte', fullTier num self cost feePerByte = some (cost', feePerByte') ∧
        ∃ rounds, loop num self rounds (size - self.referencedScriptsFeeStepSize) cost'
          feePerByte' = .fee fee := by
  constructor
  · rintro ⟨rounds, hloop⟩
    cases rounds with
    | zero => cases hloop
    | succ rounds =>
      rw [loop, if_neg h] at hloop
      cases htier : fullTier num self cost feePerByte with
      | none => simp only [htier, reduceCtorEq] at hloop
      | some next =>
        simp only [htier] at hloop
        exact ⟨next.1, next.2, rfl, rounds, hloop⟩
  · rintro ⟨cost', feePerByte', htier, rounds, hloop⟩
    exact ⟨rounds + 1, by rw [loop, if_neg h]; simp only [htier, hloop]⟩

/-- From any round on, the loop ends with the rest of the sum exactly when that fits. -/
lemma loop_eq_fee_iff (hstep : 0 < self.referencedScriptsFeeStepSize.toNat) :
    (∃ rounds, loop num self rounds size cost feePerByte = .fee fee) ↔
      FitsFrom self.referencedScriptsFeeMultiplier.1 self.referencedScriptsFeeStepSize.toNat cost.1
          feePerByte.1 size.toNat ∧
        fee.toNat = ⌊cost.1 + bytesCost self.referencedScriptsFeeMultiplier.1
          self.referencedScriptsFeeStepSize.toNat feePerByte.1 size.toNat⌋₊ := by
  induction hn : size.toNat using Nat.strong_induction_on generalizing size cost feePerByte with
  | _ n ih =>
    subst hn
    by_cases h : size < self.referencedScriptsFeeStepSize
    · have hlt : size.toNat < self.referencedScriptsFeeStepSize.toNat := UInt64.lt_iff_toNat_lt.mp h
      rw [loop_of_lt h, fitsFrom_of_lt hlt, bytesCost_of_lt hlt]
      simp only [lastTier_eq_some_iff, ← UInt64.toNat_inj, Ratio.toNat_floor]
      constructor
      · rintro ⟨total, ⟨htotal, hrest⟩, hfee⟩
        exact ⟨hrest, by rw [← hfee, htotal]⟩
      · rintro ⟨hrest, hfee⟩
        exact ⟨⟨_, cost.2.add hrest.1 hrest.2⟩, ⟨rfl, hrest⟩, hfee.symm⟩
    · have hle : self.referencedScriptsFeeStepSize ≤ size := UInt64.not_lt.mp h
      have hsub : size.toNat = (size - self.referencedScriptsFeeStepSize).toNat +
          self.referencedScriptsFeeStepSize.toNat := by
        rw [UInt64.toNat_sub_of_le _ _ hle]
        exact (Nat.sub_add_cancel (UInt64.le_iff_toNat_le.mp hle)).symm
      rw [loop_of_le h, hsub, fitsFrom_add_step hstep, bytesCost_add_step hstep, ← add_assoc]
      simp only [fullTier_eq_some_iff, lastTier_eq_some_iff]
      have hnext := @ih (size - self.referencedScriptsFeeStepSize).toNat (by omega)
        (size - self.referencedScriptsFeeStepSize)
      constructor
      · rintro ⟨cost', feePerByte', ⟨⟨hcost, htier⟩, hfee⟩, hends⟩
        rw [hnext rfl, hcost, hfee] at hends
        exact ⟨⟨htier, hfee ▸ feePerByte'.2, hends.1⟩, hends.2⟩
      · rintro ⟨⟨htier, hfee, hfits⟩, hfloor⟩
        refine ⟨⟨_, cost.2.add htier.1 htier.2⟩, ⟨_, hfee⟩, ⟨⟨rfl, htier⟩, rfl⟩, ?_⟩
        exact (hnext rfl).mpr ⟨hfits, hfloor⟩

/-- Tiers without a size are never done with. -/
lemma loop_ne_fee (hstep : self.referencedScriptsFeeStepSize = 0) (rounds : ℕ) :
    loop num self rounds size cost feePerByte ≠ .fee fee := by
  induction rounds generalizing cost feePerByte with
  | zero => exact fun h => nomatch h
  | succ rounds ih =>
    rw [loop, if_neg (by simp [hstep]), hstep, UInt64.sub_zero]
    cases fullTier num self cost feePerByte with
    | none => exact fun h => nomatch h
    | some next => exact ih

lemma step_pos_of_returns (h : Returns num self size fee) :
    0 < self.referencedScriptsFeeStepSize.toNat := by
  obtain ⟨rounds, hfee⟩ := h
  refine Nat.pos_of_ne_zero fun hstep => ?_
  exact loop_ne_fee (UInt64.toNat_inj.mp hstep) rounds hfee

lemma returns_iff (hstep : 0 < self.referencedScriptsFeeStepSize.toNat) :
    Returns num self size fee ↔ Fits self size ∧ fee.toNat = ⌊exactCost self size⌋₊ := by
  unfold Returns referencedScriptsFee
  rw [loop_eq_fee_iff hstep, show Ratio.zero.1 = 0 from rfl, zero_add]
  rfl

end Rounds

section Fees

variable (num : Ratio.Arithmetic) (self : ProtocolParameters)

/-- The sum is charged exactly when the tiers have a size and it fits. -/
lemma charges_iff (size : UInt64) :
    Charges num self size ↔ 0 < self.referencedScriptsFeeStepSize ∧ Fits self size := by
  rw [UInt64.lt_iff_toNat_lt, UInt64.toNat_zero]
  constructor
  · rintro ⟨fee, hreturns, -⟩
    have hstep := step_pos_of_returns hreturns
    exact ⟨hstep, ((returns_iff hstep).mp hreturns).1⟩
  · rintro ⟨hstep, hfits⟩
    have hlt : ⌊exactCost self size⌋₊ < 2 ^ 64 := by
      have hholds := hfits.holds_bytesCost Ratio.zero.2 hstep
      rw [zero_add] at hholds
      exact hholds.floor_lt
    have hfee := UInt64.toNat_ofNat_of_lt' hlt
    exact ⟨_, (returns_iff hstep).mpr ⟨hfits, hfee⟩, hfee⟩

lemma fee_mono {size size' fee fee' : UInt64} (h : Returns num self size fee)
    (h' : Returns num self size' fee') (hsize : size ≤ size') : fee ≤ fee' := by
  have hstep := step_pos_of_returns h
  rw [UInt64.le_iff_toNat_le, ((returns_iff hstep).mp h).2, ((returns_iff hstep).mp h').2]
  refine Nat.floor_le_floor (bytesCost_mono ?_ (Nat.cast_nonneg _) ?_)
  · exact self.referencedScriptsFeeMultiplier.2.nonneg
  · exact UInt64.le_iff_toNat_le.mp hsize

/-- **The fee for referenced scripts.**  The loop ends with the sum, rounded down, exactly when the
tiers have a size and what is computed along the way fits in words.  What it returns is monotone in
the size. -/
theorem referenced_scripts_fee_iff :
    (∀ size, Charges num self size ↔ 0 < self.referencedScriptsFeeStepSize ∧ Fits self size) ∧
      ∀ size size' fee fee', Returns num self size fee → Returns num self size' fee' →
        size ≤ size' → fee ≤ fee' :=
  ⟨charges_iff num self, fun _ _ _ _ h h' hsize => fee_mono num self h h' hsize⟩

/-- With the default parameters the loop never ends. -/
theorem not_referenced_scripts_fee :
    ¬∀ (self : ProtocolParameters) (size : UInt64), Charges Ratio.arithmetic self size := by
  intro h
  obtain ⟨fee, hreturns, -⟩ := h .default 0
  exact absurd (step_pos_of_returns hreturns) (by decide)

/-- The current parameters charge what they should for scripts of less than 425000 bytes. -/
theorem charges_mainnet {size : UInt64} (h : size.toNat < 425000) :
    Charges num .mainnet size := by
  refine (charges_iff num .mainnet size).mpr ⟨by decide, ?_⟩
  have htiers : size.toNat / 25000 ≤ 16 := by omega
  have hsix : 6 ^ (size.toNat / 25000) ≤ 6 ^ 16 := Nat.pow_le_pow_right (by decide) htiers
  have hfive : 5 ^ (size.toNat / 25000) ≤ 5 ^ 16 := Nat.pow_le_pow_right (by decide) htiers
  have hbound : 15 * 6 ^ (size.toNat / 25000) * size.toNat ≤ 15 * 6 ^ 16 * 425000 :=
    Nat.mul_le_mul (Nat.mul_le_mul_left 15 hsix) h.le
  have hfits := @fitsFrom_of_bound 25000 size.toNat 6 5 15 (by decide) (hfive.trans_lt (by decide))
    (hbound.trans_lt (by decide))
  have hmultiplier : ((6 : ℕ) : ℚ) / (5 : ℕ) = 12 / 10 := by norm_num
  rwa [hmultiplier] at hfits

end Fees

end Konduit.Cardano.ReferencedScripts
