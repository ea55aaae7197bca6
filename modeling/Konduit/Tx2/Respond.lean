import Konduit.Kernel.Evidence
import Konduit.Tx2.Sub

/-!
# Responds that are built off chain

Both builders answer a close with all active cheques, and take as much as is owed and
available.  What they take for owed is what the evidence is worth.  The kernel counts the
useds on its way through the cheques: it does not get past a used that the squash covers,
and does not count the useds beyond the last cheque.
-/

open Lib

namespace Konduit.Tx2

open Data Tx Tmp

/-! ### Evidence -/

/-- A closed channel's useds with a squash and mixed cheques, all in order: what is signed
verifies, the squash is well-formed and covers none of the cheques. -/
structure RespondEvidence {V : VerifyState} (crypto : Crypto) (constants : Constants)
    (useds : List Used) (squash : Squash V) (cheques : List (Cheque V)) : Prop where
  sortedUseds : useds.Pairwise (·.index < ·.index)
  squashVerifies : squash.Verifies crypto constants.addVkey constants.tag
  wellFormed : squash.body.WellFormed
  sorted : cheques.Pairwise (·.index < ·.index)
  verifies : ∀ c ∈ cheques, c.Verifies crypto constants.addVkey constants.tag
  uncovered : ∀ c ∈ cheques, squash.isIndexSquashed c.index = false

section Worth

variable {V : VerifyState}

/-- The cheques that are paid for. -/
def paidCheques (cheques : List (Cheque V)) (useds : List Used) (upper : Duration) :
    List (Unlocked V) :=
  (activeCheques cheques useds upper).filterMap Cheque.asUnlocked

/-- The cheques that become pending. -/
def pendingCheques (cheques : List (Cheque V)) (useds : List Used) (upper : Duration) :
    List (Locked V) :=
  (activeCheques cheques useds upper).filterMap Cheque.asLocked

/-- What the evidence is worth at a time: the squash, the useds that it leaves open and the
active unlocked cheques. -/
def respondOwed (useds : List Used) (squash : Squash V) (cheques : List (Cheque V))
    (upper : Duration) : ℕ :=
  squash.amount.toNat + ((owedUseds useds squash).map fun u => u.amount.toNat).sum +
    ((paidCheques cheques useds upper).map fun c => c.amount.toNat).sum

/-- What becomes pending. -/
def pendingOwed (useds : List Used) (cheques : List (Cheque V)) (upper : Duration) : ℕ :=
  ((pendingCheques cheques useds upper).map fun c => c.amount.toNat).sum

/-- What the builders take for owed. -/
def absoluteOwed (useds : List Used) (squash : Squash V) (cheques : List (Cheque V))
    (upper : Duration) : UInt64 :=
  squash.amount + (prepRespond squash cheques useds upper).2.2

variable {useds : List Used} {squash : Squash V} {cheques : List (Cheque V)} {upper : Duration}

lemma mem_activeCheques {c : Cheque V} :
    c ∈ activeCheques cheques useds upper ↔
      c ∈ cheques ∧ upper < c.timeout ∧ ∀ u ∈ useds, u.index ≠ c.index := by
  simp [activeCheques]

/-- What the builders take for owed is what the evidence is worth, when that fits. -/
lemma toNat_absoluteOwed_respond (hfits : respondOwed useds squash cheques upper < 2 ^ 64) :
    (absoluteOwed useds squash cheques upper).toNat = respondOwed useds squash cheques upper := by
  rw [absoluteOwed, prepRespond, UInt64.toNat_add, UInt64.toNat_add, Word.toNat_sum_map,
    Word.toNat_sum_map]
  simp only [Nat.add_mod_mod, Nat.mod_add_mod, ← add_assoc]
  exact Nat.mod_eq_of_lt hfits

/-- The pendings of the datum are worth what becomes pending, when that fits. -/
lemma toNat_pendingsAmount (hfits : pendingOwed useds cheques upper < 2 ^ 64) :
    (Word.sum ((prepRespond squash cheques useds upper).2.1.map Pending.amount)).toNat =
      pendingOwed useds cheques upper := by
  rw [prepRespond, Word.toNat_sum_map, List.map_map]
  exact Nat.mod_eq_of_lt hfits

end Worth

/-! ### The kernel's view of it -/

section Kernel

variable {V : VerifyState}

/-- The pendings that the kernel wants are those that the builders write. -/
lemma pendingsOf_toKernel (cheques : List (Cheque V)) :
    Kernel.Respond.pendingsOf (cheques.map Cheque.toKernel) =
      ((cheques.filterMap Cheque.asLocked).map Pending.ofLocked).map Pending.toKernel := by
  induction cheques with
  | nil => rfl
  | cons c cheques ih =>
    cases c with
    | unlocked c => exact ih
    | locked c =>
      rw [List.map_cons, Cheque.toKernel, Kernel.Respond.pendingsOf, ih]
      rfl

lemma unlockedAmount_toKernel (cheques : List (Cheque V)) :
    Kernel.Respond.unlockedAmount (cheques.map Cheque.toKernel) =
      (((cheques.filterMap Cheque.asUnlocked).map fun c => c.amount.toNat).sum : ℕ) := by
  induction cheques with
  | nil => rfl
  | cons c cheques ih =>
    cases c with
    | unlocked c =>
      rw [List.map_cons, Cheque.toKernel, Kernel.Respond.unlockedAmount, ih]
      simp [Cheque.asUnlocked, ChequeBody.toKernel, ChequeSigned.amount]
    | locked c => exact ih

lemma index_toKernel (c : Cheque V) : c.toKernel.index = c.index.toNat := by
  cases c <;> rfl

variable {crypto : Crypto} {constants : Constants} {useds : List Used} {squash : Squash V}
  {cheques : List (Cheque V)} {upper : Duration}

/-- The active cheques are usable on chain as long as the unlocked ones are in time there. -/
lemma RespondEvidence.usable_iff (h : RespondEvidence crypto constants useds squash cheques)
    {t : Kernel.Timestamp} :
    (∀ c ∈ (activeCheques cheques useds upper).map Cheque.toKernel,
        Kernel.Respond.Usable crypto (.finite t) constants.addVkey.bytes.1 constants.tag.bytes c) ↔
      ∀ c ∈ paidCheques cheques useds upper, t ≤ c.timeout.toInt := by
  have hverifies : ∀ c ∈ activeCheques cheques useds upper,
      c.Verifies crypto constants.addVkey constants.tag :=
    fun c hc => h.verifies c (mem_activeCheques.mp hc).1
  rw [List.forall_mem_map, paidCheques]
  constructor
  · intro husable c hc
    obtain ⟨_ | _, hc', hc⟩ := List.mem_filterMap.mp hc
    · obtain rfl := Option.some.inj hc
      exact (Unlocked.proven_iff (hverifies _ hc')).mp (husable _ hc')
    · cases hc
  · rintro htime (c | c) hc
    · have hpaid : c ∈ (activeCheques cheques useds upper).filterMap Cheque.asUnlocked :=
        List.mem_filterMap.mpr ⟨_, hc, rfl⟩
      exact (Unlocked.proven_iff (hverifies _ hc)).mpr (htime c hpaid)
    · exact Locked.verifies_iff.mp (hverifies _ hc)

/-- The evidence as the kernel is handed it. -/
def RespondEvidence.onChain (h : RespondEvidence crypto constants useds squash cheques)
    {t : Kernel.Timestamp} (htime : ∀ c ∈ paidCheques cheques useds upper, t ≤ c.timeout.toInt) :
    Kernel.Respond.Evidence crypto (.finite t) constants.addVkey.bytes.1 constants.tag.bytes where
  useds := useds.map Used.toKernel
  squash := squash.toKernel
  cheques := (activeCheques cheques useds upper).map Cheque.toKernel
  sortedUseds := sorted_toKernel h.sortedUseds
  signed := Squash.verifies_iff.mp h.squashVerifies
  wellFormed := SquashBody.wellFormed_toKernel h.wellFormed
  usable := h.usable_iff.mpr htime
  sortedCheques := by
    refine List.pairwise_map.mpr ((h.sorted.sublist List.filter_sublist).imp fun {a b} hab => ?_)
    rw [index_toKernel, index_toKernel]
    exact_mod_cast UInt64.lt_iff_toNat_lt.mp hab
  disjoint := by
    rw [List.forall_mem_map]
    intro u hu
    rw [List.forall_mem_map]
    intro c hc heq
    rw [index_toKernel] at heq
    exact (mem_activeCheques.mp hc).2.2 u hu (UInt64.toNat_inj.mp (Nat.cast_inj.mp heq))
  uncovered := by
    rw [List.forall_mem_map]
    intro c hc
    rw [index_toKernel, Squash.covers_iff h.wellFormed,
      h.uncovered c (mem_activeCheques.mp hc).1]
    simp

/-- The useds that the kernel takes to be open. -/
lemma RespondEvidence.openUseds_onChain (h : RespondEvidence crypto constants useds squash cheques)
    {t : Kernel.Timestamp}
    (htime : ∀ c ∈ paidCheques cheques useds upper, t ≤ c.timeout.toInt) :
    (h.onChain htime).openUseds = (owedUseds useds squash).map Used.toKernel := by
  rw [Kernel.Respond.Evidence.openUseds]
  change (useds.map Used.toKernel).filter _ = _
  rw [List.filter_map, owedUseds]
  refine congrArg _ (List.filter_congr fun u _ => ?_)
  change decide (¬squash.toKernel.body.Covers u.index.toNat) = _
  simp [Squash.covers_iff h.wellFormed]

/-- What the evidence is worth on chain. -/
lemma RespondEvidence.credit_onChain (h : RespondEvidence crypto constants useds squash cheques)
    {t : Kernel.Timestamp}
    (htime : ∀ c ∈ paidCheques cheques useds upper, t ≤ c.timeout.toInt) :
    (h.onChain htime).credit = (respondOwed useds squash cheques upper : ℕ) := by
  rw [Kernel.Respond.Evidence.credit, h.openUseds_onChain htime, usedsAmount_toKernel, respondOwed,
    Nat.cast_add, Nat.cast_add]
  exact congrArg _ (unlockedAmount_toKernel _)

end Kernel

/-! ### When the kernel credits it -/

/-- What the kernel needs to get through the useds and to count those that the squash leaves
open: below the active cheques none is covered, above them the open ones are worth nothing. -/
structure Counted {V : VerifyState} (useds : List Used) (squash : Squash V)
    (cheques : List (Cheque V)) (upper : Duration) : Prop where
  opened : ∀ u ∈ useds, ∀ c ∈ activeCheques cheques useds upper, u.index ≤ c.index →
    squash.isIndexSquashed u.index = false
  beyond : ∀ u ∈ useds, squash.isIndexSquashed u.index = false →
    (∀ c ∈ activeCheques cheques useds upper, c.index < u.index) → u.amount = 0

section Credit

variable {V : VerifyState} {crypto : Crypto} {constants : Constants} {useds : List Used}
  {squash : Squash V} {cheques : List (Cheque V)} {upper : Duration}

/-- Useds are worth nothing when none of them is. -/
lemma usedsAmount_eq_zero_iff {l : List Used} :
    Kernel.usedsAmount (l.map Used.toKernel) = 0 ↔ ∀ u ∈ l, u.amount = 0 := by
  rw [usedsAmount_toKernel, Nat.cast_eq_zero, List.sum_eq_zero_iff_forall_eq_nat]
  constructor
  · intro h u hu
    exact UInt64.toNat_inj.mp (h _ (List.mem_map_of_mem hu))
  · intro h n hn
    obtain ⟨u, hu, rfl⟩ := List.mem_map.mp hn
    rw [h u hu]
    rfl

lemma reached_toKernel {l : List (Cheque V)} {u : Used} :
    Kernel.Respond.Reached (l.map Cheque.toKernel) u.toKernel ↔
      ∃ c ∈ l, u.index ≤ c.index := by
  have hle : ∀ c : Cheque V, u.toKernel.index ≤ c.toKernel.index ↔ u.index ≤ c.index := by
    intro c
    rw [index_toKernel, UInt64.le_iff_toNat_le]
    exact Nat.cast_le
  simp only [Kernel.Respond.Reached, List.mem_map, exists_exists_and_eq_and, hle]

/-- The kernel's account of what the builders write, at a time when the paid cheques are
proven, is what the evidence is worth just when all that is open is counted. -/
lemma RespondEvidence.account_eq_iff (h : RespondEvidence crypto constants useds squash cheques)
    (hpending : pendingOwed useds cheques upper < 2 ^ 64) {t : Kernel.Timestamp}
    (htime : ∀ c ∈ paidCheques cheques useds upper, t ≤ c.timeout.toInt) :
    Kernel.Respond.account crypto (.finite t) constants.addVkey.bytes.1 constants.tag.bytes
        (useds.map Used.toKernel) squash.toKernel
        ((activeCheques cheques useds upper).map Cheque.toKernel)
        (Word.sum ((prepRespond squash cheques useds upper).2.1.map Pending.amount)).toNat
        ((prepRespond squash cheques useds upper).2.1.map Pending.toKernel) =
      some ((respondOwed useds squash cheques upper : ℕ) : ℤ) ↔
    Counted useds squash cheques upper := by
  have hpendings : (prepRespond squash cheques useds upper).2.1.map Pending.toKernel =
      Kernel.Respond.pendingsOf ((activeCheques cheques useds upper).map Cheque.toKernel) :=
    (pendingsOf_toKernel _).symm
  have htotal : ((Word.sum ((prepRespond squash cheques useds upper).2.1.map
      Pending.amount)).toNat : ℤ) =
        Kernel.pendsAmount ((prepRespond squash cheques useds upper).2.1.map Pending.toKernel) := by
    rw [toNat_pendingsAmount hpending, pendsAmount_toKernel, prepRespond, List.map_map]
    rfl
  have hcovers : ∀ u : Used, ¬squash.toKernel.body.Covers u.toKernel.index ↔
      squash.isIndexSquashed u.index = false := by
    intro u
    rw [← Bool.not_eq_true]
    exact not_congr (Squash.covers_iff h.wellFormed)
  rw [htotal, hpendings, ← h.credit_onChain htime]
  refine (h.onChain htime).account_eq_some.trans ?_
  rw [and_congr_right fun hopen => (h.onChain htime).credit_eq_iff hopen]
  rw [h.openUseds_onChain htime, List.filter_map, usedsAmount_eq_zero_iff]
  change (∀ u ∈ useds.map Used.toKernel, _) ∧ _ ↔ _
  rw [List.forall_mem_map]
  constructor
  · rintro ⟨hopened, hbeyond⟩
    constructor
    · intro u hu c hc hle
      exact (hcovers u).mp (hopened u hu (reached_toKernel.mpr ⟨c, hc, hle⟩))
    · intro u hu hopen habove
      refine hbeyond u (List.mem_filter.mpr ⟨mem_owedUseds.mpr ⟨hu, hopen⟩, ?_⟩)
      refine decide_eq_true fun hreached => ?_
      obtain ⟨c, hc, hle⟩ := reached_toKernel.mp hreached
      exact absurd (habove c hc) (not_lt.mpr hle)
  · intro hcounted
    constructor
    · intro u hu hreached
      obtain ⟨c, hc, hle⟩ := reached_toKernel.mp hreached
      exact (hcovers u).mpr (hcounted.opened u hu c hc hle)
    · intro u hu
      obtain ⟨hu, hnot⟩ := List.mem_filter.mp hu
      obtain ⟨hu, hopen⟩ := mem_owedUseds.mp hu
      refine hcounted.beyond u hu hopen fun c hc => not_le.mp fun hle => ?_
      exact of_decide_eq_true hnot (reached_toKernel.mpr ⟨c, hc, hle⟩)

end Credit

/-! ### What a built respond is to do -/

/-- The kernel accepts the step at every upper bound up to the given one, and comes to the
same amount for owed. -/
structure RespondValid (crypto : Crypto) (constants : Kernel.Constants) (valueIn : Kernel.Value)
    (subbed : Kernel.Amount) (useds : List Kernel.Used) (elapseAt : Kernel.Timestamp)
    (upper : Duration) (owed : UInt64) (squash : Squash .unverified)
    (cheques : List (Cheque .unverified)) (amount : UInt64) (stage : Stage) : Prop where
  accepted : ∀ lower (t : Kernel.Timestamp), t * 10 ^ 6 ≤ upper.nanos →
    ∃ vkey, Kernel.cont crypto ⟨lower, .finite t⟩ constants valueIn
      (.closed subbed useds elapseAt) (Kernel.ada (amount + minAdaBuffer).toNat) stage.toKernel
      (Cont.respond squash cheques).toKernel = some vkey
  owed : ∀ t : Kernel.Timestamp, t * 10 ^ 6 ≤ upper.nanos →
    ∃ pTotal pends, stage.toKernel = .responded pTotal pends ∧
      Kernel.Respond.account crypto (.finite t) constants.addVkey constants.tag useds
        squash.toKernel (cheques.map Cheque.toKernel) pTotal pends =
        some ((owed.toNat : ℕ) : ℤ)

/-- The kernel counts all that is open, it is no less than what was subbed and is missing of
the buffer, and the timeouts of the paid cheques, as they are on chain, are no earlier than
the upper bound. -/
structure RespondHolds {V : VerifyState} (lovelace subbed : UInt64) (useds : List Used)
    (squash : Squash V) (cheques : List (Cheque V)) (upper : Duration) : Prop where
  counted : Counted useds squash cheques upper
  enough : subbed.toNat + (2_000_000 - lovelace.toNat) ≤ respondOwed useds squash cheques upper
  inTime : ∀ c ∈ paidCheques cheques useds upper, upper.asMillis ≤ c.timeout.toU64.toNat

/-- What the builders take. -/
def respondGain {V : VerifyState} (amount subbed : UInt64) (useds : List Used) (squash : Squash V)
    (cheques : List (Cheque V)) (upper : Duration) : UInt64 :=
  min (Word.satSub (absoluteOwed useds squash cheques upper) subbed) amount

/-- The stage that both builders continue in. -/
def respondStage {V : VerifyState} (useds : List Used) (squash : Squash V)
    (cheques : List (Cheque V)) (upper : Duration) : Stage :=
  .responded (Word.sum ((prepRespond squash cheques useds upper).2.1.map Pending.amount))
    (prepRespond squash cheques useds upper).2.1

/-- What is left in the output is enough for the kernel when what was subbed, and what is
missing of the buffer, is owed. -/
lemma enough_iff {subbed lovelace owed gain out : ℕ}
    (hgain : gain = min (owed - subbed) (lovelace - 2_000_000))
    (hout : out = lovelace - 2_000_000 - gain + 2_000_000) :
    (subbed : ℤ) - lovelace + out ≤ owed ↔ subbed + (2_000_000 - lovelace) ≤ owed := by
  omega

section Built

variable {V : VerifyState} {crypto : Crypto} {constants : Constants} {useds : List Used}
  {squash : Squash V} {cheques : List (Cheque V)} {upper : Duration} {subbed lovelace : UInt64}
  {valueIn : Kernel.Value} {elapseAt : Kernel.Timestamp}

lemma activeCheques_toKernel : ((activeCheques cheques useds upper).map
    (Cheque.withState .unverified)).map Cheque.toKernel =
      (activeCheques cheques useds upper).map Cheque.toKernel := by
  rw [List.map_map]
  refine List.map_congr_left fun c _ => ?_
  cases c <;> rfl

/-- The validator on a respond that is built: the account on top of what is subbed. -/
lemma cont_respond_iff {lower : Kernel.Timebound} {t : Kernel.Timestamp}
    {vkey : Kernel.VerificationKey} {gain : UInt64}
    (hvalue : Kernel.amountIn valueIn = lovelace.toNat) :
    Kernel.cont crypto ⟨lower, .finite t⟩ constants.toKernel valueIn
        (.closed subbed.toNat (useds.map Used.toKernel) elapseAt)
        (Kernel.ada (debufferAmount lovelace - gain + minAdaBuffer).toNat)
        (respondStage useds squash cheques upper).toKernel
        (Cont.respond (squash.withState .unverified) ((activeCheques cheques useds upper).map
          (Cheque.withState .unverified))).toKernel = some vkey ↔
      (∃ owed, Kernel.Respond.account crypto (.finite t) constants.addVkey.bytes.1
          constants.tag.bytes (useds.map Used.toKernel) squash.toKernel
          ((activeCheques cheques useds upper).map Cheque.toKernel)
          (Word.sum ((prepRespond squash cheques useds upper).2.1.map Pending.amount)).toNat
          ((prepRespond squash cheques useds upper).2.1.map Pending.toKernel) = some owed ∧
        (subbed.toNat : ℤ) - lovelace.toNat +
          (debufferAmount lovelace - gain + minAdaBuffer).toNat ≤ owed) ∧
        vkey = constants.subVkey.bytes.1 := by
  change Kernel.Respond.do crypto (.finite t) constants.toKernel valueIn
    (.closed subbed.toNat (useds.map Used.toKernel) elapseAt) _ (.responded _ _) _ _ = _ ↔ _
  rw [Kernel.Respond.do_some, activeCheques_toKernel, hvalue]
  constructor
  · rintro ⟨_, owed, hout, howed, hle, rfl⟩
    obtain rfl := Option.some.inj hout
    exact ⟨⟨owed, howed, hle⟩, rfl⟩
  · rintro ⟨⟨owed, howed, hle⟩, rfl⟩
    exact ⟨_, owed, Kernel.amountOut_ada _, howed, hle, rfl⟩

/-- A respond that is built is valid exactly when it holds. -/
theorem respondValid_iff (h : RespondEvidence crypto constants useds squash cheques)
    (hvalue : Kernel.amountIn valueIn = lovelace.toNat)
    (hfits : respondOwed useds squash cheques upper < 2 ^ 64)
    (hpending : pendingOwed useds cheques upper < 2 ^ 64) {gain : UInt64}
    (hgain : gain = respondGain (debufferAmount lovelace) subbed useds squash cheques upper) :
    RespondValid crypto constants.toKernel valueIn subbed.toNat (useds.map Used.toKernel) elapseAt
        upper (absoluteOwed useds squash cheques upper) (squash.withState .unverified)
        ((activeCheques cheques useds upper).map (Cheque.withState .unverified))
        (debufferAmount lovelace - gain) (respondStage useds squash cheques upper) ↔
      RespondHolds lovelace subbed useds squash cheques upper := by
  have hgain' : gain.toNat = min (respondOwed useds squash cheques upper - subbed.toNat)
      (lovelace.toNat - 2_000_000) := by
    rw [hgain, respondGain, Word.toNat_min, Word.toNat_satSub, toNat_debufferAmount,
      toNat_absoluteOwed_respond hfits]
  have hle : gain.toNat ≤ (debufferAmount lovelace).toNat := by
    rw [toNat_debufferAmount, hgain']
    exact min_le_right _ _
  have henough := enough_iff hgain' (toNat_rebuffer hle)
  have hrun := fun lower t vkey => @cont_respond_iff _ crypto constants useds squash cheques upper
    subbed lovelace valueIn elapseAt lower t vkey gain hvalue
  have hstage : (respondStage useds squash cheques upper).toKernel = .responded
      (Word.sum ((prepRespond squash cheques useds upper).2.1.map Pending.amount)).toNat
      ((prepRespond squash cheques useds upper).2.1.map Pending.toKernel) := rfl
  constructor
  · intro hvalid
    have hnow : ((upper.asMillis : ℕ) : ℤ) * 10 ^ 6 ≤ upper.nanos :=
      Duration.le_asMillis_iff.mpr le_rfl
    obtain ⟨_, _, heq, howed⟩ := hvalid.owed upper.asMillis hnow
    rw [hstage] at heq
    obtain ⟨rfl, rfl⟩ := Kernel.Stage.responded.inj heq
    rw [activeCheques_toKernel, toNat_absoluteOwed_respond hfits] at howed
    obtain ⟨⟨-, husable⟩, -⟩ := Kernel.Respond.account_eq_some.mp howed
    have htime := h.usable_iff.mp husable
    obtain ⟨vkey, hvkey⟩ := hvalid.accepted .negativeInfinity upper.asMillis hnow
    obtain ⟨⟨owed, howed', hle⟩, -⟩ := (hrun _ _ _).mp hvkey
    obtain rfl := Option.some.inj (howed.symm.trans howed')
    refine ⟨(h.account_eq_iff hpending htime).mp howed, henough.mp hle, fun c hc => ?_⟩
    have hc := htime c hc
    rw [Duration.toInt] at hc
    exact_mod_cast hc
  · rintro ⟨hcounted, hle, htime⟩
    have hpaid : ∀ t : Kernel.Timestamp, t * 10 ^ 6 ≤ upper.nanos →
        ∀ c ∈ paidCheques cheques useds upper, t ≤ c.timeout.toInt := by
      intro t ht c hc
      rw [Duration.toInt]
      exact (Duration.le_asMillis_iff.mp ht).trans (by exact_mod_cast htime c hc)
    have howed := fun t ht => (h.account_eq_iff hpending (hpaid t ht)).mpr hcounted
    constructor
    · intro lower t ht
      exact ⟨_, (hrun lower t _).mpr ⟨⟨_, howed t ht, henough.mpr hle⟩, rfl⟩⟩
    · intro t ht
      refine ⟨_, _, hstage, ?_⟩
      rw [activeCheques_toKernel, toNat_absoluteOwed_respond hfits]
      exact howed t ht

end Built

/-! ### Both builders -/

section Builders

variable {V : VerifyState}

/-- What a respond uses does not depend on whether it was verified. -/
lemma activeCheques_withState (W : VerifyState) (cheques : List (Cheque V)) (useds : List Used)
    (upper : Duration) :
    activeCheques (cheques.map (Cheque.withState W)) useds upper =
      (activeCheques cheques useds upper).map (Cheque.withState W) := by
  rw [activeCheques, List.filter_map]
  refine congrArg _ (List.filter_congr fun c _ => ?_)
  cases c <;> rfl

lemma filterMap_asLocked_withState (W : VerifyState) (cheques : List (Cheque V)) :
    (cheques.map (Cheque.withState W)).filterMap Cheque.asLocked =
      (cheques.filterMap Cheque.asLocked).map (ChequeSigned.withState W) := by
  rw [List.filterMap_map, List.map_filterMap]
  refine List.filterMap_congr fun c _ => ?_
  cases c <;> rfl

lemma filterMap_asUnlocked_withState (W : VerifyState) (cheques : List (Cheque V)) :
    (cheques.map (Cheque.withState W)).filterMap Cheque.asUnlocked =
      (cheques.filterMap Cheque.asUnlocked).map (ChequeSigned.withState W) := by
  rw [List.filterMap_map, List.map_filterMap]
  refine List.filterMap_congr fun c _ => ?_
  cases c <;> rfl

lemma prepRespond_withState (W : VerifyState) (squash : Squash V) (cheques : List (Cheque V))
    (useds : List Used) (upper : Duration) :
    prepRespond (squash.withState W) (cheques.map (Cheque.withState W)) useds upper =
      ((activeCheques cheques useds upper).map (Cheque.withState W),
        (prepRespond squash cheques useds upper).2) := by
  rw [prepRespond, activeCheques_withState, filterMap_asLocked_withState,
    filterMap_asUnlocked_withState, List.map_map, List.map_map]
  rfl

variable {crypto : Crypto} {constants : Constants} {amount subbed : UInt64} {stage : Stage}
  {useds : List Used} {elapseAt : Duration} {receipt : Receipt} {lower : Option Duration}
  {upper : Duration}

/-- What the second builder makes of a closed channel. -/
lemma resolve_respond_eq_ok {channel : Channel}
    (hstage : channel.stage = .closed subbed useds elapseAt) {will : Will} :
    channel.resolve crypto (.respond (receipt.squash.withState .unverified)
        (receipt.cheques.map (Cheque.withState .unverified))) ⟨lower, some upper⟩ = .ok will ↔
      let gain := respondGain channel.amount subbed useds receipt.squash receipt.cheques upper
      upper < elapseAt ∧
        will = .cont
          (channel.stepped (channel.amount - gain)
            (respondStage useds receipt.squash receipt.cheques upper))
          (.respond (receipt.squash.withState .unverified)
            ((activeCheques receipt.cheques useds upper).map (Cheque.withState .unverified))
            gain) := by
  simp only [Channel.resolve, Channel.wantRespond, hstage, prepRespond_withState]
  split_ifs with hlate
  · simp [not_lt.mpr hlate]
  · rw [Except.ok.injEq]
    exact ⟨fun h => ⟨not_le.mp hlate, h.symm⟩, fun h => h.2.symm⟩

/-- What the first builder makes of a closed channel, at any time. -/
lemma respond_eq_ok (hstage : stage = .closed subbed useds elapseAt) {stepped : Stepped} :
    Tx.Channel.respond ⟨constants, amount, stage⟩ receipt upper = .ok stepped ↔
      stepped = ⟨⟨constants, amount, stage⟩,
        .cont (.respond (receipt.squash.withState .unverified)
            ((activeCheques receipt.cheques useds upper).map (Cheque.withState .unverified)))
          ⟨amount - respondGain amount subbed useds receipt.squash receipt.cheques upper,
            respondStage useds receipt.squash receipt.cheques upper⟩,
        Bounds.ofUpper upper⟩ := by
  subst hstage
  change Except.ok _ = _ ↔ _
  rw [Except.ok.injEq]
  exact eq_comm

end Builders

/-- **Built responds.**  Of a closed channel, with a datum of its own and a receipt in order,
either builder makes responds that the kernel accepts up to the upper bound, crediting what the
builder takes for owed, just when they hold; the second builder makes none once the channel has
elapsed. -/
theorem respond_valid_iff {crypto : Crypto} {hash ownHash : Kernel.ScriptHash}
    {output : Kernel.Output} {channel : Channel} {channel' : Tx.Channel}
    {constants : Kernel.Constants} {subbedIn : Kernel.Amount} {usedsIn : List Kernel.Used}
    {elapseAtIn : Kernel.Timestamp}
    (hchannel : Channel.tryFrom hash output = .ok channel)
    (hchannel' : Tx.Channel.tryFrom hash output = .ok channel') (hown : channel.Own output)
    (honChain : output.channel = some ⟨ownHash, constants, .closed subbedIn usedsIn elapseAtIn⟩)
    {subbed : UInt64} {useds : List Used} {elapseAt : Duration}
    (hstage : channel.stage = .closed subbed useds elapseAt)
    {receipt : Receipt} {upper : Duration}
    (hevidence : RespondEvidence crypto channel.constants useds receipt.squash receipt.cheques)
    (hfits : respondOwed useds receipt.squash receipt.cheques upper < 2 ^ 64)
    (hpending : pendingOwed useds receipt.cheques upper < 2 ^ 64) (lower : Option Duration) :
    ((∀ will, channel.resolve crypto (.respond (receipt.squash.withState .unverified)
          (receipt.cheques.map (Cheque.withState .unverified))) ⟨lower, some upper⟩ = .ok will →
        ∃ output' squash cheques gain, will = .cont output' (.respond squash cheques gain) ∧
          RespondValid crypto constants output.value subbedIn usedsIn elapseAtIn upper
            (absoluteOwed useds receipt.squash receipt.cheques upper) squash cheques
            output'.amount output'.stage) ↔
      elapseAt ≤ upper ∨
        RespondHolds output.lovelace subbed useds receipt.squash receipt.cheques upper) ∧
    ((∀ stepped, channel'.respond receipt upper = .ok stepped →
        ∃ squash cheques vars, stepped.stepTo = .cont (.respond squash cheques) vars ∧
          RespondValid crypto constants output.value subbedIn usedsIn elapseAtIn upper
            (absoluteOwed useds receipt.squash receipt.cheques upper) squash cheques
            vars.amount vars.stage) ↔
      RespondHolds output.lovelace subbed useds receipt.squash receipt.cheques upper) := by
  -- both builders read the same channel
  have hreads := Channel.reads_of_onChain hchannel honChain
  obtain rfl := hreads.constants_toKernel hown
  have hclosed := hreads.stage_toKernel hown
  rw [hstage] at hclosed
  obtain ⟨rfl, rfl, rfl⟩ := Kernel.Stage.closed.inj hclosed
  obtain rfl := Tx.Channel.eq_of_tryFrom hchannel hchannel'
  have hvalid := @respondValid_iff _ crypto channel.constants useds receipt.squash receipt.cheques
    upper subbed output.lovelace output.value elapseAt.toInt hevidence
    (Kernel.Output.amountIn_value output) hfits hpending _ rfl
  rw [← hreads.amount] at hvalid
  rw [← hvalid]
  constructor
  · constructor
    · intro h
      refine or_iff_not_imp_left.mpr fun hearly => ?_
      obtain ⟨_, _, _, _, heq, hvalid⟩ :=
        h _ ((resolve_respond_eq_ok hstage).mpr ⟨not_le.mp hearly, rfl⟩)
      obtain ⟨rfl, hstep⟩ := Will.cont.inj heq
      obtain ⟨rfl, rfl, -⟩ := WillCont.respond.inj hstep
      exact hvalid
    · intro h will hwill
      obtain ⟨hearly, rfl⟩ := (resolve_respond_eq_ok hstage).mp hwill
      exact ⟨_, _, _, _, rfl, h.resolve_left (not_le.mpr hearly)⟩
  · constructor
    · intro h
      obtain ⟨_, _, _, heq, hvalid⟩ := h _ ((respond_eq_ok hstage).mpr rfl)
      obtain ⟨hstep, rfl⟩ := StepTo.cont.inj heq
      obtain ⟨rfl, rfl⟩ := Cont.respond.inj hstep
      exact hvalid
    · intro h stepped hstepped
      obtain rfl := (respond_eq_ok hstage).mp hstepped
      exact ⟨_, _, _, rfl, h⟩

/-! ### A channel with one used -/

namespace Sample

/-- A closed channel of three ada beside the buffer, with a used of 70 lovelace at index 1. -/
def closed : Kernel.Output :=
  output 5_000_000 (.constr 1 [.int 0, .list [.list [.int 1, .int 70]], .int 86_400_000])

/-- A squash of 100 lovelace at this index, and a locked cheque at index 2. -/
def lockedReceipt (index : UInt64) : Receipt where
  squash := ⟨⟨100, index, Indexes.empty⟩, ⟨BytesN.fill 64 0⟩⟩
  cheques := [.locked ⟨⟨2, 10, .fromSecs 500, ⟨BytesN.fill 32 0⟩⟩, ⟨BytesN.fill 64 0⟩⟩]

lemma tryFrom_closed :
    Channel.tryFrom hash closed =
      .ok (channel 3_000_000 (.closed 0 [⟨1, 70⟩] (.fromMillis 86_400_000))) := by
  rfl

lemma channel_closed :
    closed.channel = some ⟨hash, constants.toKernel, .closed 0 [⟨1, 70⟩] 86_400_000⟩ := by
  rfl

lemma own_closed :
    (channel 3_000_000 (.closed 0 [⟨1, 70⟩] (.fromMillis 86_400_000))).Own closed :=
  ⟨_, channel_closed⟩

lemma tryFrom_closed' :
    Tx.Channel.tryFrom hash closed =
      .ok ⟨constants, 3_000_000, .closed 0 [⟨1, 70⟩] (.fromMillis 86_400_000)⟩ := by
  rfl

lemma lockedEvidence {index : UInt64} (h : index < 2) :
    RespondEvidence .noCrypto constants [⟨1, 70⟩] (lockedReceipt index).squash
      (lockedReceipt index).cheques where
  sortedUseds := List.pairwise_singleton _ _
  squashVerifies := rfl
  wellFormed := ⟨SquashBody.wellFormed_zero.exclude, fun _ hi => absurd hi List.not_mem_nil⟩
  sorted := List.pairwise_singleton _ _
  verifies := List.forall_mem_singleton.mpr rfl
  uncovered := by
    refine List.forall_mem_singleton.mpr ?_
    have hlt : compare index 2 = .lt := compare_lt_iff_lt.mpr h
    simp [Squash.isIndexSquashed, SquashBody.isIndexSquashed, lockedReceipt, hlt, Cheque.index,
      ChequeSigned.index]

end Sample

/-- A used above the squash is counted, and the respond valid. -/
theorem respond_valid_of_sample :
    ∃ stepped, Tx.Channel.respond ⟨Sample.constants, 3_000_000, .closed 0 [⟨1, 70⟩]
        (.fromMillis 86_400_000)⟩ (Sample.lockedReceipt 0) (.fromSecs 100) = .ok stepped ∧
      ∃ squash cheques vars, stepped.stepTo = .cont (.respond squash cheques) vars ∧
        RespondValid .noCrypto Sample.constants.toKernel Sample.closed.value 0 [⟨1, 70⟩] 86_400_000
          (.fromSecs 100) (absoluteOwed [⟨1, 70⟩] (Sample.lockedReceipt 0).squash
            (Sample.lockedReceipt 0).cheques (.fromSecs 100)) squash cheques vars.amount
          vars.stage := by
  have hholds : RespondHolds Sample.closed.lovelace 0 [⟨1, 70⟩] (Sample.lockedReceipt 0).squash
      (Sample.lockedReceipt 0).cheques (.fromSecs 100) :=
    ⟨⟨by decide, by decide⟩, by decide, by decide⟩
  have hevidence := Sample.lockedEvidence (by decide : (0 : UInt64) < 2)
  have hfits : respondOwed [⟨1, 70⟩] (Sample.lockedReceipt 0).squash
      (Sample.lockedReceipt 0).cheques (.fromSecs 100) < 2 ^ 64 := by
    decide
  have hvalid := respond_valid_iff Sample.tryFrom_closed Sample.tryFrom_closed' Sample.own_closed
    Sample.channel_closed rfl hevidence hfits (by decide) none
  have hstepped := (@respond_eq_ok Sample.constants 3_000_000 0 _ [⟨1, 70⟩]
    (.fromMillis 86_400_000) (Sample.lockedReceipt 0) (.fromSecs 100) rfl _).mpr rfl
  exact ⟨_, hstepped, hvalid.2.mpr hholds _ hstepped⟩

/-- A used that the squash covers, below an active cheque, makes a respond that the kernel
does not accept. -/
theorem respond_invalid :
    ¬∀ (crypto : Crypto) (hash ownHash : Kernel.ScriptHash) (output : Kernel.Output)
      (channel : Channel) (constants : Kernel.Constants) (subbedIn : Kernel.Amount)
      (usedsIn : List Kernel.Used) (elapseAtIn : Kernel.Timestamp) (subbed : UInt64)
      (useds : List Used) (elapseAt : Duration) (receipt : Receipt) (lower : Option Duration)
      (upper : Duration) (will : Will),
      Channel.tryFrom hash output = .ok channel →
      channel.Own output →
      output.channel = some ⟨ownHash, constants, .closed subbedIn usedsIn elapseAtIn⟩ →
      channel.stage = .closed subbed useds elapseAt →
      RespondEvidence crypto channel.constants useds receipt.squash receipt.cheques →
      respondOwed useds receipt.squash receipt.cheques upper < 2 ^ 64 →
      pendingOwed useds receipt.cheques upper < 2 ^ 64 →
      channel.resolve crypto (.respond (receipt.squash.withState .unverified)
        (receipt.cheques.map (Cheque.withState .unverified))) ⟨lower, some upper⟩ = .ok will →
      ∃ output' squash cheques gain, will = .cont output' (.respond squash cheques gain) ∧
        RespondValid crypto constants output.value subbedIn usedsIn elapseAtIn upper
          (absoluteOwed useds receipt.squash receipt.cheques upper) squash cheques
          output'.amount output'.stage := by
  intro h
  obtain ⟨_, _, _, _, heq, hvalid⟩ := h .noCrypto Sample.hash _ Sample.closed _ _ _ _ _ 0
    [⟨1, 70⟩] _ (Sample.lockedReceipt 1) none (.fromSecs 100) _ Sample.tryFrom_closed
    Sample.own_closed Sample.channel_closed rfl (Sample.lockedEvidence (by decide)) (by decide)
    (by decide) ((resolve_respond_eq_ok rfl).mpr ⟨by decide, rfl⟩)
  obtain ⟨rfl, hstep⟩ := Will.cont.inj heq
  obtain ⟨rfl, rfl, -⟩ := WillCont.respond.inj hstep
  obtain ⟨vkey, hvkey⟩ := hvalid.accepted .negativeInfinity 0 (by decide)
  have hnone : none = some vkey := hvkey
  cases hnone

end Konduit.Tx2
