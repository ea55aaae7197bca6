import Mathlib.Data.List.Nodup
import Konduit.Data.Signed
import Konduit.Tx.Claim

/-!
# Subs that are built off chain

Both builders put the same sub together: the active cheques, merged into the useds that the
squash leaves open, and as much as is owed and available.  The kernel walks the two lists
with a cursor and comes to the same sum.  Only the times differ: the builders compare
durations, the kernel reads milliseconds in 64 bits.
-/

open Lib

namespace Konduit.Tx2

open Data Tx Tmp

/-! ### Evidence -/

/-- An opened channel's useds with a squash and unlocked cheques, all in order: what is signed
verifies, the squash is well-formed and covers none of the cheques. -/
structure SubEvidence {V : VerifyState} (crypto : Crypto) (constants : Constants)
    (useds : List Used) (squash : Squash V) (cheques : List (Unlocked V)) : Prop where
  sortedUseds : useds.Pairwise (·.index < ·.index)
  squashVerifies : squash.Verifies crypto constants.addVkey constants.tag
  wellFormed : squash.body.WellFormed
  sorted : cheques.Pairwise (·.index < ·.index)
  verifies : ∀ c ∈ cheques, Unlocked.Verifies crypto constants.addVkey constants.tag c
  uncovered : ∀ c ∈ cheques, squash.isIndexSquashed c.index = false

/-- What the evidence is worth at a time: the squash, the useds that it leaves open and the
active cheques. -/
def subOwed {V : VerifyState} (useds : List Used) (squash : Squash V)
    (cheques : List (Unlocked V)) (upper : Duration) : ℕ :=
  squash.amount.toNat + ((owedUseds useds squash).map fun u => u.amount.toNat).sum +
    ((activeUnlockeds cheques useds upper).map fun c => c.amount.toNat).sum

section Merge

variable {crypto : Crypto} {constants : Constants} {V : VerifyState} {useds : List Used}
  {squash : Squash V} {cheques : List (Unlocked V)} {upper : Duration}

lemma mem_activeUnlockeds {c : Unlocked V} :
    c ∈ activeUnlockeds cheques useds upper ↔
      c ∈ cheques ∧ upper < c.timeout ∧ ∀ u ∈ useds, u.index ≠ c.index := by
  simp [activeUnlockeds]

lemma mem_owedUseds {u : Used} :
    u ∈ owedUseds useds squash ↔ u ∈ useds ∧ squash.isIndexSquashed u.index = false := by
  simp [owedUseds]

/-- Useds of distinct indexes are sorted strictly. -/
lemma sorted_mergeSort {l : List Used} (h : (l.map Used.index).Nodup) :
    (l.mergeSort fun a b => a.index ≤ b.index).Pairwise (·.index < ·.index) := by
  have hle : (l.mergeSort fun a b => a.index ≤ b.index).Pairwise
      fun a b => decide (a.index ≤ b.index) = true := by
    refine List.pairwise_mergeSort ?_ ?_ l
    · intro a b c hab hbc
      simp only [decide_eq_true_eq] at hab hbc ⊢
      exact hab.trans hbc
    · intro a b
      simpa using le_total a.index b.index
  have hperm := (List.mergeSort_perm l fun a b => decide (a.index ≤ b.index)).map Used.index
  have hne : (l.mergeSort fun a b => a.index ≤ b.index).Pairwise
      fun a b => a.index ≠ b.index := List.pairwise_map.mp (hperm.nodup_iff.mpr h)
  refine (hle.and hne).imp fun {a b} hab => ?_
  exact lt_of_le_of_ne (by simpa using hab.1) hab.2

/-- The useds of the continuing datum, before they are sorted, have distinct indexes. -/
lemma SubEvidence.nodup_next (h : SubEvidence crypto constants useds squash cheques)
    (upper : Duration) :
    ((owedUseds useds squash ++ (activeUnlockeds cheques useds upper).map Used.ofUnlocked).map
      Used.index).Nodup := by
  have howed : ((owedUseds useds squash).map Used.index).Nodup :=
    List.pairwise_map.mpr ((h.sortedUseds.sublist List.filter_sublist).imp ne_of_lt)
  have hactive : (((activeUnlockeds cheques useds upper).map Used.ofUnlocked).map
      Used.index).Nodup := by
    rw [List.map_map]
    exact List.pairwise_map.mpr ((h.sorted.sublist List.filter_sublist).imp ne_of_lt)
  rw [List.map_append, List.nodup_append]
  refine ⟨howed, hactive, ?_⟩
  -- an active cheque is at no used's index
  rintro _ hi _ hj rfl
  obtain ⟨u, hu, rfl⟩ := List.mem_map.mp hi
  obtain ⟨_, hv, heq⟩ := List.mem_map.mp hj
  obtain ⟨c, hc, rfl⟩ := List.mem_map.mp hv
  exact (mem_activeUnlockeds.mp hc).2.2 u (mem_owedUseds.mp hu).1 heq.symm

lemma SubEvidence.sorted_next (h : SubEvidence crypto constants useds squash cheques)
    (upper : Duration) :
    (prepSub squash cheques useds upper).2.Pairwise (·.index < ·.index) :=
  sorted_mergeSort (h.nodup_next upper)

lemma mem_next {u : Used} :
    u ∈ (prepSub squash cheques useds upper).2 ↔
      u ∈ owedUseds useds squash ∨
        ∃ c ∈ activeUnlockeds cheques useds upper, Used.ofUnlocked c = u := by
  rw [prepSub, List.mem_mergeSort, List.mem_append, List.mem_map]

/-- Of the useds of the continuing datum, those at a new index are the active cheques. -/
lemma SubEvidence.filter_next (h : SubEvidence crypto constants useds squash cheques)
    (upper : Duration) :
    ((prepSub squash cheques useds upper).2.filter fun u => ∀ v ∈ useds, v.index ≠ u.index) =
      (activeUnlockeds cheques useds upper).map Used.ofUnlocked := by
  have hnone : (owedUseds useds squash).filter (fun u => ∀ v ∈ useds, v.index ≠ u.index) = [] := by
    refine List.filter_eq_nil_iff.mpr fun u hu => ?_
    simp only [decide_eq_true_eq, not_forall, not_not]
    exact ⟨u, (mem_owedUseds.mp hu).1, rfl⟩
  have hall : ((activeUnlockeds cheques useds upper).map Used.ofUnlocked).filter
      (fun u => ∀ v ∈ useds, v.index ≠ u.index) =
        (activeUnlockeds cheques useds upper).map Used.ofUnlocked := by
    refine List.filter_eq_self.mpr fun u hu => ?_
    obtain ⟨c, hc, rfl⟩ := List.mem_map.mp hu
    exact decide_eq_true (mem_activeUnlockeds.mp hc).2.2
  have hperm := (List.mergeSort_perm
    (owedUseds useds squash ++ (activeUnlockeds cheques useds upper).map Used.ofUnlocked)
    fun a b => decide (a.index ≤ b.index)).filter fun u => ∀ v ∈ useds, v.index ≠ u.index
  rw [List.filter_append, hnone, hall, List.nil_append] at hperm
  -- two lists of the same useds, both sorted
  refine List.Perm.eq_of_pairwise ?_ ((h.sorted_next upper).sublist List.filter_sublist) ?_ hperm
  · intro a b _ _ hab hba
    exact absurd (hab.trans hba) (lt_irrefl _)
  · exact List.pairwise_map.mpr (h.sorted.sublist List.filter_sublist)

/-! ### The kernel's view of it -/

lemma sorted_toKernel {l : List Used} (h : l.Pairwise (·.index < ·.index)) :
    (l.map Used.toKernel).Pairwise (·.index < ·.index) := by
  refine List.pairwise_map.mpr (h.imp fun {a b} hab => ?_)
  change (a.index.toNat : ℤ) < b.index.toNat
  exact_mod_cast UInt64.lt_iff_toNat_lt.mp hab

lemma index_toKernel_ne {u v : Used} : u.toKernel.index ≠ v.toKernel.index ↔ u.index ≠ v.index := by
  simp [Used.toKernel, UInt64.toNat_inj]

/-- The kernel gets through the continuing useds. -/
lemma SubEvidence.merges (h : SubEvidence crypto constants useds squash cheques)
    (upper : Duration) :
    Kernel.Sub.Merges (useds.map Used.toKernel)
      ((activeUnlockeds cheques useds upper).map Unlocked.toKernel)
      ((prepSub squash cheques useds upper).2.map Used.toKernel) := by
  have hne : ∀ u : Used, (∀ v ∈ useds.map Used.toKernel, v.index ≠ u.toKernel.index) ↔
      ∀ v ∈ useds, v.index ≠ u.index := by
    intro u
    rw [List.forall_mem_map]
    exact forall₂_congr fun v _ => index_toKernel_ne
  refine ⟨sorted_toKernel h.sortedUseds, sorted_toKernel (h.sorted_next upper), ?_, ?_⟩
  · intro _ hmem
    obtain ⟨u, hu, rfl⟩ := List.mem_map.mp hmem
    rcases mem_next.mp hu with hu | ⟨c, hc, rfl⟩
    · exact Or.inl (List.mem_map_of_mem (mem_owedUseds.mp hu).1)
    · exact Or.inr ((hne _).mpr (mem_activeUnlockeds.mp hc).2.2)
  · rw [List.filter_map, List.map_map]
    have hcongr := List.filter_congr (l := (prepSub squash cheques useds upper).2)
      (p := (fun u => decide (∀ v ∈ useds.map Used.toKernel, v.index ≠ u.index)) ∘ Used.toKernel)
      (q := fun u => decide (∀ v ∈ useds, v.index ≠ u.index))
      fun u _ => by simpa using hne u
    rw [hcongr, h.filter_next upper, List.map_map]
    rfl

/-- The squash leaves the continuing useds open. -/
lemma SubEvidence.advanceAll (h : SubEvidence crypto constants useds squash cheques)
    (upper : Duration) :
    ∃ c, squash.toKernel.body.cursor.advanceAll
      (((prepSub squash cheques useds upper).2.map Used.toKernel).map Kernel.Used.index) =
        some c := by
  have hopen : ∀ i, squash.isIndexSquashed i = false →
      squash.toKernel.body.cursor.Ahead i.toNat := by
    intro i hi
    refine not_not.mp fun hcovers => ?_
    rw [(Squash.covers_iff h.wellFormed).mp hcovers] at hi
    cases hi
  have hordered : squash.toKernel.body.cursor.Ordered :=
    (SquashBody.wellFormed_toKernel h.wellFormed).sorted
  refine (Cursor.advanceAll_isSome_iff hordered).mpr
    ⟨List.pairwise_map.mpr (sorted_toKernel (h.sorted_next upper)), ?_⟩
  intro j hj
  rw [List.map_map] at hj
  obtain ⟨u, hu, rfl⟩ := List.mem_map.mp hj
  rcases mem_next.mp hu with hu | ⟨c, hc, rfl⟩
  · exact hopen u.index (mem_owedUseds.mp hu).2
  · exact hopen c.index (h.uncovered c (mem_activeUnlockeds.mp hc).1)

end Merge

/-! ### Amounts -/

section Amounts

variable {V : VerifyState} {useds : List Used} {squash : Squash V} {cheques : List (Unlocked V)}
  {upper : Duration} {amount subbed : UInt64}

/-- The continuing useds are worth what is owed on top of the squash. -/
lemma sum_next :
    squash.amount.toNat + ((prepSub squash cheques useds upper).2.map fun u => u.amount.toNat).sum =
      subOwed useds squash cheques upper := by
  have hperm := (List.mergeSort_perm
    (owedUseds useds squash ++ (activeUnlockeds cheques useds upper).map Used.ofUnlocked)
    fun a b => decide (a.index ≤ b.index)).map fun u : Used => u.amount.toNat
  rw [subOwed, prepSub, hperm.sum_nat, List.map_append, List.sum_append, List.map_map, ← add_assoc]
  rfl

/-- What the builders take for owed, when it fits in a word. -/
lemma toNat_absoluteOwed (hfits : subOwed useds squash cheques upper < 2 ^ 64) :
    (squash.amount + Word.sum ((prepSub squash cheques useds upper).2.map Used.amount)).toNat =
      subOwed useds squash cheques upper := by
  rw [UInt64.toNat_add, Word.toNat_sum_map, Nat.add_mod_mod, sum_next, Nat.mod_eq_of_lt hfits]

/-- What the builders take. -/
def subGain (amount subbed : UInt64) (useds : List Used) (squash : Squash V)
    (cheques : List (Unlocked V)) (upper : Duration) : UInt64 :=
  min (Word.satSub
    (squash.amount + Word.sum ((prepSub squash cheques useds upper).2.map Used.amount)) subbed)
    amount

lemma toNat_subGain (hfits : subOwed useds squash cheques upper < 2 ^ 64) :
    (subGain amount subbed useds squash cheques upper).toNat =
      min (subOwed useds squash cheques upper - subbed.toNat) amount.toNat := by
  rw [subGain, Word.toNat_min, Word.toNat_satSub, toNat_absoluteOwed hfits]

/-- Something is taken when something is there and something is owed. -/
lemma subGain_ne_zero_iff (hfits : subOwed useds squash cheques upper < 2 ^ 64) :
    subGain amount subbed useds squash cheques upper ≠ 0 ↔
      amount ≠ 0 ∧ subbed.toNat < subOwed useds squash cheques upper := by
  have hgain := @toNat_subGain V useds squash cheques upper amount subbed hfits
  rw [← UInt64.toNat_inj.ne, ← UInt64.toNat_inj.ne, hgain, UInt64.toNat_zero]
  omega

end Amounts

/-! ### What a built sub is to do -/

/-- The kernel accepts the step at every upper bound up to the given one, and the step takes
the most that it would let it take on this evidence: the amount above the buffer, or what is
owed and was not subbed. -/
structure SubValid (crypto : Crypto) (constants : Kernel.Constants) (valueIn : Kernel.Value)
    (subbed : Kernel.Amount) (useds : List Kernel.Used) (squash : Kernel.Squash)
    (upper : Duration) (step : Cont) (amount : UInt64) (stage : Stage) : Prop where
  accepted : ∀ lower (t : Kernel.Timestamp), t * 10 ^ 6 ≤ upper.nanos →
    ∃ vkey, Kernel.cont crypto ⟨lower, .finite t⟩ constants valueIn (.opened subbed useds)
      (Kernel.ada (amount + minAdaBuffer).toNat) stage.toKernel step.toKernel = some vkey
  most : ∃ subbedOut usedsOut, stage.toKernel = .opened subbedOut usedsOut ∧
    Kernel.amountIn valueIn - (amount + minAdaBuffer).toNat =
      min (max 0 (Kernel.amountIn valueIn - 2_000_000))
        (max 0 (squash.body.amount + Kernel.usedsAmount usedsOut - subbed))

/-- There is nothing to take, or the timeouts of the active cheques, as they are on chain, are
no earlier than the upper bound. -/
def SubInTime {V : VerifyState} (amount subbed : UInt64) (useds : List Used) (squash : Squash V)
    (cheques : List (Unlocked V)) (upper : Duration) : Prop :=
  amount = 0 ∨ subOwed useds squash cheques upper ≤ subbed.toNat ∨
    ∀ c ∈ activeUnlockeds cheques useds upper, upper.asMillis ≤ c.timeout.toU64.toNat

lemma subInTime_iff {V : VerifyState} {amount subbed : UInt64} {useds : List Used}
    {squash : Squash V} {cheques : List (Unlocked V)} {upper : Duration}
    (hfits : subOwed useds squash cheques upper < 2 ^ 64) :
    SubInTime amount subbed useds squash cheques upper ↔
      (subGain amount subbed useds squash cheques upper ≠ 0 →
        ∀ c ∈ activeUnlockeds cheques useds upper, upper.asMillis ≤ c.timeout.toU64.toNat) := by
  rw [SubInTime, subGain_ne_zero_iff hfits, imp_iff_not_or, not_and_or, not_not, not_lt, or_assoc]

section Built

variable {crypto : Crypto} {constants : Constants} {V : VerifyState} {useds : List Used}
  {squash : Squash V} {cheques : List (Unlocked V)} {upper : Duration} {subbed lovelace : UInt64}
  {valueIn : Kernel.Value}

/-- Two cheques of the evidence at one index are the same. -/
lemma SubEvidence.eq_of_index (h : SubEvidence crypto constants useds squash cheques)
    {c c' : Unlocked V} (hc : c ∈ cheques) (hc' : c' ∈ cheques) (hindex : c.index = c'.index) :
    c = c' := by
  have hnodup : (cheques.map ChequeSigned.index).Nodup :=
    List.pairwise_map.mpr (h.sorted.imp ne_of_lt)
  exact List.inj_on_of_nodup_map hnodup hc hc' hindex

/-- The kernel's account of the evidence at a time when the active cheques are proven. -/
lemma SubEvidence.account_eq (h : SubEvidence crypto constants useds squash cheques)
    {t : Kernel.Timestamp}
    (htime : ∀ c ∈ activeUnlockeds cheques useds upper, t ≤ c.timeout.toInt) :
    Kernel.Sub.account crypto (.finite t) constants.addVkey.bytes.1 constants.tag.bytes
        (useds.map Used.toKernel) ((prepSub squash cheques useds upper).2.map Used.toKernel)
        squash.toKernel ((activeUnlockeds cheques useds upper).map Unlocked.toKernel) =
      some ((subOwed useds squash cheques upper : ℕ) : ℤ) := by
  have hproven : ∀ cheque ∈ (activeUnlockeds cheques useds upper).map Unlocked.toKernel,
      cheque.Proven crypto (.finite t) constants.addVkey.bytes.1 constants.tag.bytes := by
    intro _ hmem
    obtain ⟨c, hc, rfl⟩ := List.mem_map.mp hmem
    exact (Unlocked.proven_iff (h.verifies c (mem_activeUnlockeds.mp hc).1)).mpr (htime c hc)
  obtain ⟨c, hc⟩ := h.advanceAll upper
  have hsigned := Squash.verifies_iff.mp h.squashVerifies
  rw [Kernel.Sub.account_eq List.prefix_rfl (h.merges upper) hsigned hproven, hc,
    Option.map_some, usedsAmount_toKernel, ← sum_next, Nat.cast_add]
  rfl

/-- A difference of naturals, cut off at zero. -/
lemma max_zero_sub (a b : ℕ) : max 0 ((a : ℤ) - b) = (a - b : ℕ) := by omega

/-- What the kernel accounts for, it has proven in time. -/
lemma SubEvidence.inTime_of_account (h : SubEvidence crypto constants useds squash cheques)
    {t : Kernel.Timestamp} {owed : Kernel.Amount}
    (haccount : Kernel.Sub.account crypto (.finite t) constants.addVkey.bytes.1
      constants.tag.bytes (useds.map Used.toKernel)
      ((prepSub squash cheques useds upper).2.map Used.toKernel) squash.toKernel
      ((activeUnlockeds cheques useds upper).map Unlocked.toKernel) = some owed) :
    ∀ c ∈ activeUnlockeds cheques useds upper, t ≤ c.timeout.toInt := by
  intro c hc
  obtain ⟨hmem, -, hnew⟩ := mem_activeUnlockeds.mp hc
  obtain ⟨-, hback, -, -⟩ := Kernel.Sub.account_some haccount
  have hused := hback (Used.ofUnlocked c).toKernel
    (List.mem_map_of_mem (mem_next.mpr (Or.inr ⟨c, hc, rfl⟩)))
  rcases hused with hin | ⟨_, hcheque, hproven, heq⟩
  · obtain ⟨u, hu, heq⟩ := List.mem_map.mp hin
    exact absurd (congrArg Kernel.Used.index heq) (index_toKernel_ne.mpr (hnew u hu))
  · obtain ⟨c', hc', rfl⟩ := List.mem_map.mp hcheque
    have hindex : (c'.index.toNat : ℤ) = c.index.toNat := congrArg Kernel.Used.index heq
    obtain rfl := h.eq_of_index (mem_activeUnlockeds.mp hc').1 hmem
      (UInt64.toNat_inj.mp (Nat.cast_inj.mp hindex))
    exact (Unlocked.proven_iff (h.verifies c' hmem)).mp hproven

/-- The validator on a sub that is built: the account on top of what is subbed. -/
lemma cont_sub_iff {lower : Kernel.Timebound} {t : Kernel.Timestamp}
    {vkey : Kernel.VerificationKey} {gain : UInt64}
    (hvalue : Kernel.amountIn valueIn = lovelace.toNat)
    (hout : (debufferAmount lovelace - gain + minAdaBuffer).toNat + gain.toNat = lovelace.toNat)
    (hsubbed : (subbed + gain).toNat = subbed.toNat + gain.toNat) :
    Kernel.cont crypto ⟨lower, .finite t⟩ constants.toKernel valueIn
        (.opened subbed.toNat (useds.map Used.toKernel))
        (Kernel.ada (debufferAmount lovelace - gain + minAdaBuffer).toNat)
        (Stage.opened (subbed + gain) (prepSub squash cheques useds upper).2).toKernel
        (Cont.sub (squash.withState .unverified) ((activeUnlockeds cheques useds upper).map
          (ChequeSigned.withState .unverified))).toKernel = some vkey ↔
      (∃ amount, Kernel.Sub.account crypto (.finite t) constants.addVkey.bytes.1
          constants.tag.bytes (useds.map Used.toKernel)
          ((prepSub squash cheques useds upper).2.map Used.toKernel) squash.toKernel
          ((activeUnlockeds cheques useds upper).map Unlocked.toKernel) = some amount ∧
        ((subbed + gain).toNat : ℤ) ≤ amount) ∧ vkey = constants.subVkey.bytes.1 := by
  have hunlockeds : ((activeUnlockeds cheques useds upper).map
      (ChequeSigned.withState .unverified)).map Unlocked.toKernel =
        (activeUnlockeds cheques useds upper).map Unlocked.toKernel := by
    rw [List.map_map]
    rfl
  refine Kernel.Sub.do_eq_some.trans ?_
  rw [hunlockeds]
  refine and_iff_right ⟨_, Kernel.amountOut_ada _, ?_⟩
  rw [hvalue, hsubbed, ← hout]
  push_cast
  linarith

/-- A sub that is built is valid exactly when the active cheques are in time on chain. -/
theorem subValid_iff (h : SubEvidence crypto constants useds squash cheques)
    (hvalue : Kernel.amountIn valueIn = lovelace.toNat)
    (hfits : subOwed useds squash cheques upper < 2 ^ 64) {gain : UInt64}
    (hgain : gain = subGain (debufferAmount lovelace) subbed useds squash cheques upper)
    (hpos : gain ≠ 0) :
    SubValid crypto constants.toKernel valueIn subbed.toNat (useds.map Used.toKernel)
        squash.toKernel upper
        (.sub (squash.withState .unverified)
          ((activeUnlockeds cheques useds upper).map (ChequeSigned.withState .unverified)))
        (debufferAmount lovelace - gain)
        (.opened (subbed + gain) (prepSub squash cheques useds upper).2) ↔
      ∀ c ∈ activeUnlockeds cheques useds upper, upper.asMillis ≤ c.timeout.toU64.toNat := by
  -- what is taken is owed, available, and not nothing
  have hnat := @toNat_subGain V useds squash cheques upper (debufferAmount lovelace) subbed hfits
  rw [← hgain, toNat_debufferAmount] at hnat
  have hne : gain.toNat ≠ 0 := fun hzero => hpos (UInt64.toNat_inj.mp hzero)
  have hle : gain.toNat ≤ (debufferAmount lovelace).toNat := by
    rw [toNat_debufferAmount]
    omega
  have hout : (debufferAmount lovelace - gain + minAdaBuffer).toNat + gain.toNat =
      lovelace.toNat := by
    rw [toNat_rebuffer hle]
    omega
  have howed : subbed.toNat + gain.toNat ≤ subOwed useds squash cheques upper := by omega
  have hsubbed : (subbed + gain).toNat = subbed.toNat + gain.toNat := by
    rw [UInt64.toNat_add, Nat.mod_eq_of_lt (howed.trans_lt hfits)]
  have hrun := fun lower t vkey => @cont_sub_iff crypto constants _ useds squash cheques upper
    subbed lovelace valueIn lower t vkey gain hvalue hout hsubbed
  constructor
  · intro hvalid c hc
    obtain ⟨vkey, hvkey⟩ := hvalid.accepted .negativeInfinity upper.asMillis
      (Duration.le_asMillis_iff.mpr le_rfl)
    obtain ⟨⟨amount, haccount, -⟩, -⟩ := (hrun _ _ _).mp hvkey
    have htime := h.inTime_of_account haccount c hc
    rw [Duration.toInt] at htime
    exact_mod_cast htime
  · intro htime
    constructor
    · intro lower t ht
      have ht := Duration.le_asMillis_iff.mp ht
      refine ⟨_, (hrun lower t _).mpr ⟨⟨_, h.account_eq fun c hc => ?_, ?_⟩, rfl⟩⟩
      · rw [Duration.toInt]
        exact ht.trans (by exact_mod_cast htime c hc)
      · rw [hsubbed]
        exact_mod_cast howed
    · refine ⟨_, _, rfl, ?_⟩
      have hsum : squash.toKernel.body.amount + Kernel.usedsAmount
          ((prepSub squash cheques useds upper).2.map Used.toKernel) =
            (subOwed useds squash cheques upper : ℕ) := by
        rw [usedsAmount_toKernel, ← sum_next, Nat.cast_add]
        rfl
      have hgain : Kernel.amountIn valueIn -
          (debufferAmount lovelace - gain + minAdaBuffer).toNat = gain.toNat := by
        rw [hvalue, ← hout]
        push_cast
        ring
      have havailable : max 0 (Kernel.amountIn valueIn - 2_000_000) =
          (lovelace.toNat - 2_000_000 : ℕ) := by
        rw [hvalue]
        exact max_zero_sub lovelace.toNat 2_000_000
      rw [hgain, havailable, hsum, max_zero_sub, hnat, Nat.cast_min, min_comm]

end Built

/-! ### Both builders -/

section Builders

variable {V : VerifyState}

/-- What a sub uses does not depend on whether it was verified. -/
lemma activeUnlockeds_withState (W : VerifyState) (cheques : List (Unlocked V)) (useds : List Used)
    (upper : Duration) :
    activeUnlockeds (cheques.map (ChequeSigned.withState W)) useds upper =
      (activeUnlockeds cheques useds upper).map (ChequeSigned.withState W) := by
  rw [activeUnlockeds, List.filter_map]
  rfl

lemma prepSub_withState (W : VerifyState) (squash : Squash V) (cheques : List (Unlocked V))
    (useds : List Used) (upper : Duration) :
    prepSub (squash.withState W) (cheques.map (ChequeSigned.withState W)) useds upper =
      ((prepSub squash cheques useds upper).1.map (ChequeSigned.withState W),
        (prepSub squash cheques useds upper).2) := by
  rw [prepSub, activeUnlockeds_withState, List.map_map]
  rfl

variable {crypto : Crypto} {constants : Constants} {amount subbed : UInt64} {stage : Stage}
  {useds : List Used} {receipt : Receipt} {lower : Option Duration} {upper : Duration}

/-- The step that both builders make. -/
def subStep (useds : List Used) (receipt : Receipt) (upper : Duration) : Cont :=
  .sub (receipt.squash.withState .unverified)
    ((activeUnlockeds receipt.unlockeds useds upper).map (ChequeSigned.withState .unverified))

/-- The stage that both builders continue in. -/
def subStage (amount subbed : UInt64) (useds : List Used) (receipt : Receipt) (upper : Duration) :
    Stage :=
  .opened (subbed + subGain amount subbed useds receipt.squash receipt.unlockeds upper)
    (prepSub receipt.squash receipt.unlockeds useds upper).2

/-- What the second builder makes of an opened channel. -/
lemma resolve_sub_eq_ok {channel : Channel} (hstage : channel.stage = .opened subbed useds)
    {will : Will} :
    channel.resolve crypto (.sub (receipt.squash.withState .unverified)
        (receipt.unlockeds.map (ChequeSigned.withState .unverified))) ⟨lower, some upper⟩ =
          .ok will ↔
      let gain := subGain channel.amount subbed useds receipt.squash receipt.unlockeds upper
      gain ≠ 0 ∧
        will = .cont
          (channel.stepped (channel.amount - gain)
            (subStage channel.amount subbed useds receipt upper))
          (.sub (receipt.squash.withState .unverified)
            ((activeUnlockeds receipt.unlockeds useds upper).map
              (ChequeSigned.withState .unverified)) gain) := by
  simp only [Channel.resolve, Channel.wantSub, hstage, prepSub_withState]
  change (if subGain channel.amount subbed useds receipt.squash receipt.unlockeds upper = 0
    then _ else _) = _ ↔ _
  split_ifs with hgain
  · simp [hgain]
  · rw [Except.ok.injEq]
    exact ⟨fun h => ⟨hgain, h.symm⟩, fun h => h.2.symm⟩

/-- What the first builder makes of an opened channel. -/
lemma sub_eq_ok (hstage : stage = .opened subbed useds) {stepped : Stepped} :
    Tx.Channel.sub ⟨constants, amount, stage⟩ receipt upper = .ok stepped ↔
      let gain := subGain amount subbed useds receipt.squash receipt.unlockeds upper
      gain ≠ 0 ∧
        stepped = ⟨⟨constants, amount, stage⟩,
          .cont (subStep useds receipt upper)
            ⟨amount - gain, subStage amount subbed useds receipt upper⟩,
          Bounds.ofUpper upper⟩ := by
  subst hstage
  change (if subGain amount subbed useds receipt.squash receipt.unlockeds upper = 0
    then _ else _) = _ ↔ _
  split_ifs with hgain
  · simp [hgain]
  · change Except.ok _ = _ ↔ _
    rw [Except.ok.injEq]
    exact ⟨fun h => ⟨hgain, h.symm⟩, fun h => h.2.symm⟩

end Builders

/-- **Built subs.**  Of an opened channel, with a datum of its own and a receipt in order, either
builder makes subs that the kernel accepts up to the upper bound, and that take the most, just
when the timeouts of the active cheques are no earlier on chain than the upper bound: or when
there is nothing to take, and no sub. -/
theorem sub_valid_iff {crypto : Crypto} {hash ownHash : Kernel.ScriptHash}
    {output : Kernel.Output} {channel : Channel} {channel' : Tx.Channel}
    {constants : Kernel.Constants} {subbedIn : Kernel.Amount} {usedsIn : List Kernel.Used}
    (hchannel : Channel.tryFrom hash output = .ok channel)
    (hchannel' : Tx.Channel.tryFrom hash output = .ok channel') (hown : channel.Own output)
    (honChain : output.channel = some ⟨ownHash, constants, .opened subbedIn usedsIn⟩)
    {subbed : UInt64} {useds : List Used} (hstage : channel.stage = .opened subbed useds)
    {receipt : Receipt} {upper : Duration}
    (hevidence : SubEvidence crypto channel.constants useds receipt.squash receipt.unlockeds)
    (hfits : subOwed useds receipt.squash receipt.unlockeds upper < 2 ^ 64)
    (lower : Option Duration) :
    ((∀ will, channel.resolve crypto (.sub (receipt.squash.withState .unverified)
          (receipt.unlockeds.map (ChequeSigned.withState .unverified))) ⟨lower, some upper⟩ =
            .ok will →
        ∃ output' step, will = .cont output' step ∧
          SubValid crypto constants output.value subbedIn usedsIn receipt.squash.toKernel upper
            step.toStep output'.amount output'.stage) ↔
      SubInTime channel.amount subbed useds receipt.squash receipt.unlockeds upper) ∧
    ((∀ stepped, channel'.sub receipt upper = .ok stepped →
        ∃ step vars, stepped.stepTo = .cont step vars ∧
          SubValid crypto constants output.value subbedIn usedsIn receipt.squash.toKernel upper
            step vars.amount vars.stage) ↔
      SubInTime channel.amount subbed useds receipt.squash receipt.unlockeds upper) := by
  -- both builders read the same channel
  have hreads := Channel.reads_of_onChain hchannel honChain
  obtain rfl := hreads.constants_toKernel hown
  have hopened := hreads.stage_toKernel hown
  rw [hstage] at hopened
  obtain ⟨rfl, rfl⟩ := Kernel.Stage.opened.inj hopened
  obtain rfl := Tx.Channel.eq_of_tryFrom hchannel hchannel'
  -- a sub is built when something is taken, and then it is valid in time
  have hvalid := fun hpos => subValid_iff hevidence (Kernel.Output.amountIn_value output) hfits
    (congrArg (subGain · subbed useds receipt.squash receipt.unlockeds upper) hreads.amount) hpos
  rw [← hreads.amount] at hvalid
  rw [subInTime_iff hfits, ← forall_congr' hvalid]
  constructor
  · constructor
    · intro h hpos
      obtain ⟨_, _, heq, hvalid⟩ := h _ ((resolve_sub_eq_ok hstage).mpr ⟨hpos, rfl⟩)
      obtain ⟨rfl, rfl⟩ := Will.cont.inj heq
      exact hvalid
    · intro h will hwill
      obtain ⟨hpos, rfl⟩ := (resolve_sub_eq_ok hstage).mp hwill
      exact ⟨_, _, rfl, h hpos⟩
  · constructor
    · intro h hpos
      obtain ⟨_, _, heq, hvalid⟩ := h _ ((sub_eq_ok hstage).mpr ⟨hpos, rfl⟩)
      obtain ⟨rfl, rfl⟩ := StepTo.cont.inj heq
      exact hvalid
    · intro h stepped hstepped
      obtain ⟨hpos, rfl⟩ := (sub_eq_ok hstage).mp hstepped
      exact ⟨_, _, rfl, h hpos⟩

/-! ### A channel with one cheque -/

namespace Sample

/-- The null squash. -/
def squash : Squash .verified := ⟨.zero, ⟨BytesN.fill 64 0⟩⟩

/-- One ada, unlocked by the zero secret. -/
def cheque (timeout : Duration) : Unlocked .verified :=
  ⟨⟨1, 1_000_000, timeout, ⟨BytesN.fill 32 0⟩⟩, ⟨BytesN.fill 64 0⟩⟩

/-- The null squash with an unlocked cheque. -/
def receipt (timeout : Duration) : Receipt := ⟨squash, [.unlocked (cheque timeout)]⟩

/-- An opened channel of three ada beside the buffer. -/
def opened : Kernel.Output := output 5_000_000 (.constr 0 [.int 0, .list []])

lemma tryFrom_opened :
    Channel.tryFrom hash opened = .ok (channel 3_000_000 (.opened 0 [])) := by
  rfl

lemma channel_opened : opened.channel = some ⟨hash, constants.toKernel, .opened 0 []⟩ := by
  rfl

lemma own_opened : (channel 3_000_000 (.opened 0 [])).Own opened := ⟨_, channel_opened⟩

lemma tryFrom_opened' :
    Tx.Channel.tryFrom hash opened = .ok ⟨constants, 3_000_000, .opened 0 []⟩ := by
  rfl

lemma evidence (timeout : Duration) :
    SubEvidence .noCrypto constants [] (receipt timeout).squash (receipt timeout).unlockeds where
  sortedUseds := List.Pairwise.nil
  squashVerifies := rfl
  wellFormed := SquashBody.wellFormed_zero
  sorted := List.pairwise_singleton _ _
  verifies := List.forall_mem_singleton.mpr rfl
  uncovered := List.forall_mem_singleton.mpr (by decide : squash.isIndexSquashed 1 = false)

lemma owed (timeout upper : Duration) (h : upper < timeout) :
    subOwed [] (receipt timeout).squash (receipt timeout).unlockeds upper = 1_000_000 := by
  simp [subOwed, activeUnlockeds, owedUseds, receipt, Receipt.unlockeds, Cheque.asUnlocked, cheque,
    ChequeSigned.timeout, ChequeSigned.amount, h, squash, Squash.amount, SquashBody.zero]

lemma fits (timeout upper : Duration) (h : upper < timeout) :
    subOwed [] (receipt timeout).squash (receipt timeout).unlockeds upper < 2 ^ 64 := by
  rw [owed timeout upper h]
  norm_num

lemma gain_ne_zero (timeout upper : Duration) (h : upper < timeout) :
    subGain 3_000_000 0 [] (receipt timeout).squash (receipt timeout).unlockeds upper ≠ 0 := by
  rw [subGain_ne_zero_iff (fits timeout upper h), owed timeout upper h]
  decide

end Sample

/-- A cheque that is in time makes a valid sub. -/
theorem sub_valid_of_sample :
    ∃ will, (Sample.channel 3_000_000 (.opened 0 [])).resolve .noCrypto
        (.sub (Sample.squash.withState .unverified)
          ((Sample.receipt (.fromSecs 500)).unlockeds.map (ChequeSigned.withState .unverified)))
        ⟨none, some (.fromSecs 100)⟩ = .ok will ∧
      ∃ output' step, will = .cont output' step ∧
        SubValid .noCrypto Sample.constants.toKernel Sample.opened.value 0 [] Sample.squash.toKernel
          (.fromSecs 100) step.toStep output'.amount output'.stage := by
  have hearly : Duration.fromSecs 100 < .fromSecs 500 := by decide
  have hvalid := sub_valid_iff Sample.tryFrom_opened Sample.tryFrom_opened' Sample.own_opened
    Sample.channel_opened rfl (Sample.evidence (.fromSecs 500)) (Sample.fits _ _ hearly) none
  have hwill := (@resolve_sub_eq_ok .noCrypto 0 [] (Sample.receipt (.fromSecs 500)) none
    (.fromSecs 100) (Sample.channel 3_000_000 _) rfl _).mpr ⟨Sample.gain_ne_zero _ _ hearly, rfl⟩
  exact ⟨_, hwill, hvalid.1.mpr (Or.inr (Or.inr (by decide))) _ hwill⟩

/-- A cheque whose timeout comes out at 384 milliseconds, in 64 bits, makes a sub that the
kernel does not accept. -/
theorem sub_invalid :
    ¬∀ (crypto : Crypto) (hash ownHash : Kernel.ScriptHash) (output : Kernel.Output)
      (channel : Channel) (constants : Kernel.Constants) (subbedIn : Kernel.Amount)
      (usedsIn : List Kernel.Used) (subbed : UInt64) (useds : List Used) (receipt : Receipt)
      (lower : Option Duration) (upper : Duration) (will : Will),
      Channel.tryFrom hash output = .ok channel →
      channel.Own output →
      output.channel = some ⟨ownHash, constants, .opened subbedIn usedsIn⟩ →
      channel.stage = .opened subbed useds →
      SubEvidence crypto channel.constants useds receipt.squash receipt.unlockeds →
      subOwed useds receipt.squash receipt.unlockeds upper < 2 ^ 64 →
      channel.resolve crypto (.sub (receipt.squash.withState .unverified)
        (receipt.unlockeds.map (ChequeSigned.withState .unverified))) ⟨lower, some upper⟩ =
          .ok will →
      ∃ output' step, will = .cont output' step ∧
        SubValid crypto constants output.value subbedIn usedsIn receipt.squash.toKernel upper
          step.toStep output'.amount output'.stage := by
  intro h
  have hearly : Duration.fromSecs 100 < .fromSecs 18446744073709552 := by decide
  have hfits := Sample.fits _ _ hearly
  have hgain := Sample.gain_ne_zero _ _ hearly
  obtain ⟨_, _, heq, hvalid⟩ := h .noCrypto Sample.hash _ Sample.opened _ _ _ _ 0 []
    (Sample.receipt (.fromSecs 18446744073709552)) none (.fromSecs 100) _ Sample.tryFrom_opened
    Sample.own_opened Sample.channel_opened rfl (Sample.evidence _) hfits
    ((resolve_sub_eq_ok rfl).mpr ⟨hgain, rfl⟩)
  obtain ⟨rfl, rfl⟩ := Will.cont.inj heq
  -- second 100 is after millisecond 384
  have htime := (subValid_iff (Sample.evidence _) (Kernel.Output.amountIn_value Sample.opened) hfits
    rfl hgain).mp hvalid (Sample.cheque (.fromSecs 18446744073709552)) (by decide)
  exact absurd htime (by decide)

end Konduit.Tx2
