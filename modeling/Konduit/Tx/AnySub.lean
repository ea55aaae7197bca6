import Konduit.Tmp.Proposals
import Konduit.Tx.Agree

/-!
# What the adaptor claims

The adaptor asks of a channel what its stage calls for.  With a receipt in order every sub that it
makes is accepted.  A respond is accepted just when the squash covers no used that the cheques
reach, the pendings fit in a word, and the account, with what is taken, makes up for what was
subbed; an unlock just when there is nothing to unlock (`accepted_anySub_iff`).
-/

open Lib

namespace Konduit.Data

/-- The useds of a channel that is not responded to. -/
def Stage.useds : Stage → List Used
  | .opened _ useds | .closed _ useds _ => useds
  | .responded _ _ => []

end Konduit.Data

namespace Konduit.Kernel.Respond

/-- Of sorted useds those are counted that the cheques reach. -/
lemma taken_eq_filter {useds : List Used} {cheques : List Cheque}
    (hs : useds.Pairwise (·.index < ·.index)) :
    taken useds cheques = useds.filter fun u => Reached cheques u := by
  have htaken : (taken useds cheques).filter (fun u => decide (Reached cheques u)) =
      taken useds cheques :=
    List.filter_eq_self.mpr fun u hu => decide_eq_true (reached_of_mem_taken hu)
  have hleft : (left useds cheques).filter (fun u => decide (Reached cheques u)) = [] :=
    List.filter_eq_nil_iff.mpr fun u hu => by simpa using not_reached_of_mem_left hs hu
  conv_rhs => rw [← taken_append_left useds cheques, List.filter_append, hleft]
  rw [htaken, List.append_nil]

end Konduit.Kernel.Respond

namespace Konduit.Tx

open Data Tmp Tx2

/-! ### What the kernel makes of a respond -/

section Counted

variable {V : VerifyState}

/-- The useds that an active cheque reaches. -/
def reachedUseds (useds : List Used) (cheques : List (Cheque V)) (upper : Duration) : List Used :=
  useds.filter fun u => (activeCheques cheques useds upper).any fun c => u.index ≤ c.index

/-- What the kernel counts: the squash, the useds that are reached, and what is paid for. -/
def countedOwed (useds : List Used) (squash : Squash V) (cheques : List (Cheque V))
    (upper : Duration) : ℕ :=
  squash.amount.toNat + ((reachedUseds useds cheques upper).map fun u => u.amount.toNat).sum +
    ((paidCheques cheques useds upper).map fun c => c.amount.toNat).sum

variable {crypto : Crypto} {constants : Constants} {useds : List Used} {squash : Squash V}
  {cheques : List (Cheque V)} {upper : Duration}

lemma taken_toKernel (hs : useds.Pairwise (·.index < ·.index)) :
    Kernel.Respond.taken (useds.map Used.toKernel)
        ((activeCheques cheques useds upper).map Cheque.toKernel) =
      (reachedUseds useds cheques upper).map Used.toKernel := by
  rw [Kernel.Respond.taken_eq_filter (sorted_toKernel hs), List.filter_map, reachedUseds]
  refine congrArg _ (List.filter_congr fun u _ => ?_)
  rw [Bool.eq_iff_iff]
  simp [reached_toKernel]

/-- What becomes pending adds up in the datum just when it fits in a word. -/
lemma pendings_tally_iff :
    ((Word.sum ((prepRespond squash cheques useds upper).2.1.map Pending.amount)).toNat : ℤ) =
        Kernel.pendsAmount ((prepRespond squash cheques useds upper).2.1.map Pending.toKernel) ↔
      pendingOwed useds cheques upper < 2 ^ 64 := by
  have hsum : ((prepRespond squash cheques useds upper).2.1.map fun p => p.amount.toNat).sum =
      pendingOwed useds cheques upper := by
    rw [prepRespond, List.map_map]
    rfl
  rw [Word.toNat_sum_map, pendsAmount_toKernel, hsum, Nat.cast_inj]
  exact Nat.mod_eq_iff_lt (by norm_num)

/-- The kernel accounts for what the builders write just when the squash covers no used that is
reached, and the pendings fit in a word. -/
lemma account_respond_iff (h : RespondEvidence crypto constants useds squash cheques)
    {t : Kernel.Timestamp} (htime : ∀ c ∈ paidCheques cheques useds upper, t ≤ c.timeout.toInt)
    {owed : Kernel.Amount} :
    Kernel.Respond.account crypto (.finite t) constants.addVkey.bytes.1 constants.tag.bytes
        (useds.map Used.toKernel) squash.toKernel
        ((activeCheques cheques useds upper).map Cheque.toKernel)
        (Word.sum ((prepRespond squash cheques useds upper).2.1.map Pending.amount)).toNat
        ((prepRespond squash cheques useds upper).2.1.map Pending.toKernel) = some owed ↔
      (∀ u ∈ reachedUseds useds cheques upper, squash.isIndexSquashed u.index = false) ∧
        pendingOwed useds cheques upper < 2 ^ 64 ∧
        owed = (countedOwed useds squash cheques upper : ℕ) := by
  have hpendings : (prepRespond squash cheques useds upper).2.1.map Pending.toKernel =
      Kernel.Respond.pendingsOf ((activeCheques cheques useds upper).map Cheque.toKernel) :=
    (pendingsOf_toKernel _).symm
  have hopened : (∀ u ∈ useds.map Used.toKernel,
      Kernel.Respond.Reached ((activeCheques cheques useds upper).map Cheque.toKernel) u →
        ¬squash.toKernel.body.Covers u.index) ↔
      ∀ u ∈ reachedUseds useds cheques upper, squash.isIndexSquashed u.index = false := by
    have hcovers : ∀ u : Used, ¬squash.toKernel.body.Covers u.toKernel.index ↔
        squash.isIndexSquashed u.index = false := by
      intro u
      rw [← Bool.not_eq_true]
      exact not_congr (Squash.covers_iff h.wellFormed)
    simp [reachedUseds, reached_toKernel, hcovers]
  have hcounted : squash.toKernel.body.amount +
      Kernel.usedsAmount (Kernel.Respond.taken (useds.map Used.toKernel)
        ((activeCheques cheques useds upper).map Cheque.toKernel)) +
      Kernel.Respond.unlockedAmount ((activeCheques cheques useds upper).map Cheque.toKernel) =
        (countedOwed useds squash cheques upper : ℕ) := by
    rw [taken_toKernel h.sortedUseds, usedsAmount_toKernel, unlockedAmount_toKernel, countedOwed,
      Nat.cast_add, Nat.cast_add]
    rfl
  constructor
  · intro haccount
    obtain ⟨-, ⟨-, htotal⟩, -⟩ := Kernel.Respond.account_eq_some.mp haccount
    have hpending := pendings_tally_iff.mp htotal
    rw [htotal, hpendings] at haccount
    obtain ⟨hopen, rfl⟩ := (h.onChain htime).account_eq_some.mp haccount
    exact ⟨hopened.mp hopen, hpending, hcounted⟩
  · rintro ⟨hopen, hpending, rfl⟩
    rw [pendings_tally_iff.mpr hpending, hpendings]
    exact (h.onChain htime).account_eq_some.mpr ⟨hopened.mpr hopen, hcounted.symm⟩

end Counted

/-! ### What is accepted -/

lemma Stepped.run_cont (crypto : Crypto) (bounds : Kernel.Bounds) (constants : Kernel.Constants)
    (valueIn : Kernel.Value) (stageIn : Kernel.Stage) (channel : Channel) (step : Cont)
    (amount : UInt64) (stage : Stage) (b : Bounds) :
    Stepped.run ⟨channel, .cont step ⟨amount, stage⟩, b⟩ crypto bounds constants valueIn stageIn =
      Kernel.cont crypto bounds constants valueIn stageIn
        (Kernel.ada (amount + minAdaBuffer).toNat) stage.toKernel step.toKernel := rfl

/-- A respond that the kernel accepts. -/
structure RespondPasses (lovelace subbed : UInt64) (useds : List Used) (receipt : Receipt)
    (upper : Duration) : Prop where
  opened : ∀ u ∈ reachedUseds useds receipt.cheques upper,
    receipt.squash.isIndexSquashed u.index = false
  pending : pendingOwed useds receipt.cheques upper < 2 ^ 64
  enough : subbed.toNat + (2_000_000 - lovelace.toNat) ≤
    countedOwed useds receipt.squash receipt.cheques upper +
      (respondGain (debufferAmount lovelace) subbed useds receipt.squash receipt.cheques
        upper).toNat

/-- When the kernel accepts what the adaptor claims of a channel. -/
def ClaimHolds (lovelace : UInt64) (stage : Stage) (receipt : Receipt) (upper : Duration) : Prop :=
  match stage with
  | .opened _ _ => True
  | .closed subbed useds _ => RespondPasses lovelace subbed useds receipt upper
  | .responded total pendings => total = 0 ∧ pendings = []

section Accepted

variable {crypto : Crypto} {receipt : Receipt} {upper : Duration} {lovelace : UInt64}
  {constants : Constants} {valueIn : Kernel.Value} {lower : Kernel.Timebound} {t : Kernel.Timestamp}

/-- A receipt in order for a respond is in order for a sub. -/
lemma subEvidence_of_respond {useds : List Used}
    (h : RespondEvidence crypto constants useds receipt.squash receipt.cheques) :
    SubEvidence crypto constants useds receipt.squash receipt.unlockeds where
  sortedUseds := h.sortedUseds
  squashVerifies := h.squashVerifies
  wellFormed := h.wellFormed
  sorted := by
    rw [Receipt.unlockeds, List.pairwise_filterMap]
    refine h.sorted.imp fun {c c'} hlt u hu u' hu' => ?_
    rw [Receipt.asUnlocked_eq_some.mp hu, Receipt.asUnlocked_eq_some.mp hu'] at hlt
    exact hlt
  verifies _ hc := h.verifies _ (Receipt.mem_unlockeds.mp hc)
  uncovered _ hc := h.uncovered _ (Receipt.mem_unlockeds.mp hc)

/-- What is beyond a bound is so in milliseconds. -/
lemma le_toInt_of_lt {d : Duration} (hcanonical : d.Canonical) (hlt : upper < d)
    (ht : t ≤ upper.asMillis) : t ≤ d.toInt := by
  rw [Duration.toInt_of_canonical hcanonical]
  refine ht.trans ?_
  exact_mod_cast (Nat.div_le_div_right (le_of_lt hlt : upper.nanos ≤ d.nanos) : _ ≤ d.asMillis)

/-- What is taken for a sub is owed on top of what was subbed, and the sum is exact. -/
lemma subbed_add_subGain {V : VerifyState} {amount subbed : UInt64} {useds : List Used}
    {squash : Squash V} {cheques : List (Unlocked V)}
    (hpos : subGain amount subbed useds squash cheques upper ≠ 0) :
    let gain := subGain amount subbed useds squash cheques upper
    0 < gain.toNat ∧ gain.toNat ≤ amount.toNat ∧
      (subbed + gain).toNat = subbed.toNat + gain.toNat ∧
      subbed.toNat + gain.toNat ≤ subOwed useds squash cheques upper := by
  intro gain
  have howed : (squash.amount + Word.sum ((prepSub squash cheques useds upper).2.map
      Used.amount)).toNat ≤ subOwed useds squash cheques upper := by
    rw [UInt64.toNat_add, Word.toNat_sum_map, Nat.add_mod_mod, sum_next]
    exact Nat.mod_le _ _
  have hlt := (squash.amount + Word.sum ((prepSub squash cheques useds upper).2.map
    Used.amount)).toNat_lt
  have hgain : gain.toNat = min ((squash.amount + Word.sum ((prepSub squash cheques useds
      upper).2.map Used.amount)).toNat - subbed.toNat) amount.toNat := by
    rw [← Word.toNat_satSub, ← Word.toNat_min]
    rfl
  have hne : gain.toNat ≠ 0 := fun hzero => hpos (UInt64.toNat_inj.mp hzero)
  rw [UInt64.toNat_add]
  omega

/-- Every sub that is built is accepted. -/
lemma accepted_sub {subbed : UInt64} {useds : List Used}
    (h : RespondEvidence crypto constants useds receipt.squash receipt.cheques)
    (hcanonical : ∀ c ∈ receipt.cheques, c.timeout.Canonical)
    (hvalue : Kernel.amountIn valueIn = lovelace.toNat) (ht : t ≤ upper.asMillis)
    {stepped : Stepped} (hstepped : Channel.sub ⟨constants, debufferAmount lovelace,
      .opened subbed useds⟩ receipt upper = .ok stepped) :
    ∃ vkey, stepped.run crypto ⟨lower, .finite t⟩ constants.toKernel valueIn
      (Stage.opened subbed useds).toKernel = some vkey := by
  obtain ⟨hpos, rfl⟩ := (sub_eq_ok rfl).mp hstepped
  obtain ⟨hgain, hle, hsubbed, howed⟩ := subbed_add_subGain hpos
  have hout : (debufferAmount lovelace - subGain (debufferAmount lovelace) subbed useds
      receipt.squash receipt.unlockeds upper + minAdaBuffer).toNat +
        (subGain (debufferAmount lovelace) subbed useds receipt.squash receipt.unlockeds
          upper).toNat = lovelace.toNat := by
    rw [toNat_rebuffer hle]
    rw [toNat_debufferAmount] at hle
    omega
  rw [Stepped.run_cont, subStep, subStage]
  have hrun := @cont_sub_iff crypto constants _ useds receipt.squash receipt.unlockeds upper subbed
    lovelace valueIn lower t constants.subVkey.bytes.1 _ hvalue hout hsubbed
  have htime : ∀ c ∈ activeUnlockeds receipt.unlockeds useds upper, t ≤ c.timeout.toInt := by
    intro c hc
    obtain ⟨hmem, hlt, -⟩ := mem_activeUnlockeds.mp hc
    have hwhole : c.timeout.Canonical := hcanonical (.unlocked c) (Receipt.mem_unlockeds.mp hmem)
    exact le_toInt_of_lt hwhole hlt ht
  refine ⟨_, hrun.mpr ⟨⟨_, (subEvidence_of_respond h).account_eq htime, ?_⟩, rfl⟩⟩
  rw [hsubbed]
  exact_mod_cast howed

/-- A respond that is built is accepted just when it passes. -/
lemma accepted_respond_iff {subbed : UInt64} {useds : List Used} {elapseAt : Duration}
    (h : RespondEvidence crypto constants useds receipt.squash receipt.cheques)
    (hcanonical : ∀ c ∈ receipt.cheques, c.timeout.Canonical)
    (hvalue : Kernel.amountIn valueIn = lovelace.toNat) (ht : t ≤ upper.asMillis)
    {stepped : Stepped} (hstepped : Channel.respond ⟨constants, debufferAmount lovelace,
      .closed subbed useds elapseAt⟩ receipt upper = .ok stepped) :
    (∃ vkey, stepped.run crypto ⟨lower, .finite t⟩ constants.toKernel valueIn
      (Stage.closed subbed useds elapseAt).toKernel = some vkey) ↔
      RespondPasses lovelace subbed useds receipt upper := by
  obtain rfl := (respond_eq_ok rfl).mp hstepped
  have htime : ∀ c ∈ paidCheques receipt.cheques useds upper, t ≤ c.timeout.toInt := by
    intro c hc
    obtain ⟨c', hc', hunlocked⟩ := List.mem_filterMap.mp hc
    obtain rfl := Receipt.asUnlocked_eq_some.mp hunlocked
    obtain ⟨hmem, hlt, -⟩ := mem_activeCheques.mp hc'
    have hwhole : c.timeout.Canonical := hcanonical (.unlocked c) hmem
    exact le_toInt_of_lt hwhole hlt ht
  have hgain : (respondGain (debufferAmount lovelace) subbed useds receipt.squash receipt.cheques
      upper).toNat ≤ (debufferAmount lovelace).toNat := by
    rw [respondGain, Word.toNat_min]
    exact min_le_right _ _
  have hout := toNat_rebuffer hgain
  rw [toNat_debufferAmount] at hgain
  have hrun := fun vkey => @cont_respond_iff _ crypto constants useds receipt.squash receipt.cheques
    upper subbed lovelace valueIn elapseAt.toInt lower t vkey
    (respondGain (debufferAmount lovelace) subbed useds receipt.squash receipt.cheques upper) hvalue
  simp only [account_respond_iff h htime] at hrun
  rw [Stepped.run_cont]
  refine (exists_congr hrun).trans ⟨?_, fun hpasses => ?_⟩
  · rintro ⟨_, ⟨_, ⟨hopened, hpending, rfl⟩, henough⟩, -⟩
    rw [hout] at henough
    exact ⟨hopened, hpending, by omega⟩
  · refine ⟨_, ⟨_, ⟨hpasses.opened, hpasses.pending, rfl⟩, ?_⟩, rfl⟩
    have henough := hpasses.enough
    rw [hout]
    omega

/-- An unlock that is built is accepted just when nothing is pending: the pendings that it frees
are continued. -/
lemma accepted_unlock_iff {total : UInt64} {pendings : List Pending}
    (hcanonical : ∀ p ∈ pendings, p.timeout.Canonical)
    (hvalue : Kernel.amountIn valueIn = lovelace.toNat) {stepped : Stepped}
    (hstepped : Channel.unlock ⟨constants, debufferAmount lovelace, .responded total pendings⟩
      crypto receipt upper = .ok stepped) :
    (∃ vkey, stepped.run crypto ⟨lower, .finite t⟩ constants.toKernel valueIn
      (Stage.responded total pendings).toKernel = some vkey) ↔ total = 0 ∧ pendings = [] := by
  rw [Channel.unlock, Channel.unlockWithSecrets_eq rfl] at hstepped
  obtain rfl := Except.ok.inj hstepped
  rw [Stepped.run_cont]
  constructor
  · rintro ⟨vkey, hvkey⟩
    obtain ⟨-, -, -, hpends, htotal, -⟩ := Kernel.Unlock.do_eq_some.mp hvkey
    rw [remaining_toKernel] at hpends
    obtain rfl := (freed_eq_continued_iff hcanonical).mp hpends
    have hzero : ((0 : ℕ) : ℤ) = total.toNat - 0 := htotal
    exact ⟨UInt64.toNat_inj.mp (by rw [UInt64.toNat_zero]; omega), rfl⟩
  · rintro ⟨rfl, rfl⟩
    have hgain : Word.satSub (debufferAmount lovelace) 0 = debufferAmount lovelace :=
      UInt64.toNat_inj.mp (by simp)
    refine ⟨_, unlock_do_nil (Kernel.amountOut_ada _) ?_⟩
    rw [List.filter_nil, List.map_nil, Word.sum_nil, hgain, hvalue]
    exact_mod_cast toNat_debufferAmount_add lovelace

/-- What the adaptor makes of a channel on the ledger, with a datum of its own and a receipt in
order, is accepted up to the upper bound just when the claim holds. -/
lemma accepted_anySub_iff {hash ownHash : Kernel.ScriptHash} {output : Kernel.Output}
    {channel : Channel} (hread : Channel.tryFrom hash output = .ok channel)
    (hown : channel.Own output) {constants : Kernel.Constants} {stage : Kernel.Stage}
    (honChain : output.channel = some ⟨ownHash, constants, stage⟩)
    (hevidence : RespondEvidence crypto channel.constants channel.stage.useds receipt.squash
      receipt.cheques)
    (hcanonical : ∀ c ∈ receipt.cheques, c.timeout.Canonical) (ht : t ≤ upper.asMillis)
    {stepped : Stepped} (hstepped : channel.anySub crypto receipt upper = .ok stepped) :
    (∃ vkey, stepped.run crypto ⟨lower, .finite t⟩ constants output.value stage = some vkey) ↔
      ClaimHolds output.lovelace channel.stage receipt upper := by
  have hvalue := Kernel.Output.amountIn_value output
  obtain ⟨-, -, hpendings, hamount⟩ := Channel.reads_of_onChain hread honChain
  obtain ⟨rfl, rfl⟩ := hown.eq honChain
  obtain ⟨constants, amount, stage⟩ := channel
  obtain rfl : amount = debufferAmount output.lovelace := hamount
  cases stage with
  | opened subbed useds =>
    exact iff_of_true (accepted_sub hevidence hcanonical hvalue ht hstepped) trivial
  | closed subbed useds elapseAt =>
    exact accepted_respond_iff hevidence hcanonical hvalue ht hstepped
  | responded total pendings => exact accepted_unlock_iff hpendings hvalue hstepped

end Accepted

end Konduit.Tx
