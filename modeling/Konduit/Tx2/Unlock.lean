import Konduit.Tx.Unlock
import Konduit.Tx2.Channel

/-!
# Unlocks of the second builder

The second builder continues the pendings that it does not free, as the kernel wants it.
But it frees a pending only after its timeout, and the kernel only until then.
-/

open Lib

namespace Konduit.Tx2

open Data Tx

/-! ### Walking through the pendings -/

section Walk

variable (f : Pending → Unpend) (pendings : List Pending)

lemma remaining_eq : Channel.remaining pendings (pendings.map f) =
    pendings.filter fun p => (f p).isContinue :=
  filter_zip_map f Unpend.isContinue pendings

/-- The pendings that are not continued. -/
def freed : List Pending := pendings.filter fun p => !(f p).isContinue

/-- The kernel frees the same pendings. -/
lemma freed_toKernel :
    Kernel.Pends.freed ((pendings.map f).map Unpend.toKernel) (pendings.map Pending.toKernel) =
      (freed f pendings).map fun p => ((f p).toKernel, p.toKernel) := by
  induction pendings with
  | nil => rfl
  | cons p pendings ih =>
    rw [freed] at ih
    simp only [List.map_cons, freed, List.filter_cons]
    rcases h : (f p).toKernel with _ | ⟨b, bs⟩
    · rw [Kernel.Pends.freed, ih, Unpend.toKernel_eq_nil.mp h]
      simp
    · have hfreed : (f p).isContinue = false := by
        rw [← Bool.not_eq_true, ← Unpend.toKernel_eq_nil, h]
        simp
      rw [Kernel.Pends.freed, ih, hfreed]
      simp [h]

lemma freedAmount_toKernel :
    Kernel.Pends.freedAmount ((pendings.map f).map Unpend.toKernel)
        (pendings.map Pending.toKernel) =
      (((freed f pendings).map fun p => p.amount.toNat).sum : ℕ) := by
  rw [Kernel.Pends.freedAmount, freed_toKernel, List.map_map, ← pendsAmount_toKernel]
  rfl

end Walk

/-- The total of the pendings is the amount of those that are freed and what the continuing
datum says of the others, in 64 bits. -/
def Tallies (frees : Pending → Bool) (pendings : List Pending) (pendingsAmount : UInt64) : Prop :=
  pendingsAmount.toNat = ((pendings.filter frees).map fun p => p.amount.toNat).sum +
    (Word.sum ((pendings.filter fun p => !frees p).map Pending.amount)).toNat

instance (frees : Pending → Bool) (pendings : List Pending) (pendingsAmount : UInt64) :
    Decidable (Tallies frees pendings pendingsAmount) :=
  inferInstanceAs (Decidable (_ = _))

/-- What the kernel asks of the totals. -/
lemma tallies_iff {f : Pending → Unpend} {frees : Pending → Bool} {pendings : List Pending}
    (hfrees : ∀ p ∈ pendings, frees p = !(f p).isContinue) {pendingsAmount : UInt64} :
    Tallies frees pendings pendingsAmount ↔
      ((Word.sum ((Channel.remaining pendings (pendings.map f)).map Pending.amount)).toNat : ℤ) =
        pendingsAmount.toNat - Kernel.Pends.freedAmount ((pendings.map f).map Unpend.toKernel)
          (pendings.map Pending.toKernel) := by
  have hfreed : pendings.filter frees = freed f pendings := List.filter_congr hfrees
  have hrest : (pendings.filter fun p => !frees p) =
      Channel.remaining pendings (pendings.map f) := by
    rw [remaining_eq]
    refine List.filter_congr fun p hp => ?_
    rw [hfrees p hp, Bool.not_not]
  rw [Tallies, hfreed, hrest, freedAmount_toKernel]
  omega

/-! ### Secrets -/

section Secrets

variable {crypto : Crypto} {secrets : List Secret} {lock : Lock} {secret : Secret}

/-- The secret opens the lock. -/
def Opens (crypto : Crypto) (secret : Secret) (lock : Lock) : Prop :=
  Lock.ofSecret crypto secret = lock

lemma lookup_eq_some (h : Tx.Channel.lookup crypto secrets lock = some secret) :
    secret ∈ secrets ∧ Opens crypto secret lock := by
  obtain ⟨_, _, hsplit, -⟩ := List.lookup_eq_some_iff.mp h
  have hmem : (lock, secret) ∈ (secrets.map fun s => (Lock.ofSecret crypto s, s)).reverse := by
    rw [hsplit]
    exact List.mem_append_right _ List.mem_cons_self
  obtain ⟨s, hs, heq⟩ := List.mem_map.mp (List.mem_reverse.mp hmem)
  obtain ⟨hlock, rfl⟩ := Prod.mk.inj heq
  exact ⟨hs, hlock⟩

lemma lookup_eq_none (h : Tx.Channel.lookup crypto secrets lock = none) :
    ∀ s ∈ secrets, ¬Opens crypto s lock := by
  intro s hs hopens
  have hmem : (Lock.ofSecret crypto s, s) ∈
      (secrets.map fun s => (Lock.ofSecret crypto s, s)).reverse :=
    List.mem_reverse.mpr (List.mem_map_of_mem hs)
  have hne := List.lookup_eq_none_iff.mp h _ hmem
  simp [show Lock.ofSecret crypto s = lock from hopens] at hne

/-- A pending is freed when it is past its timeout and a secret opens it. -/
lemma isContinue_unlockUnpend {upper : Duration} {p : Pending} :
    (Channel.unlockUnpend crypto secrets upper p).isContinue = false ↔
      p.timeout < upper ∧ ∃ s ∈ secrets, Opens crypto s p.lock := by
  rw [Channel.unlockUnpend]
  split_ifs with hlate
  · simp [Unpend.isContinue, not_lt.mpr hlate]
  · rcases hlookup : Tx.Channel.lookup crypto secrets p.lock with _ | secret
    · refine iff_of_false (by simp [Unpend.isContinue]) ?_
      rintro ⟨-, s, hs, hopens⟩
      exact lookup_eq_none hlookup s hs hopens
    · obtain ⟨hmem, hopens⟩ := lookup_eq_some hlookup
      exact iff_of_true rfl ⟨not_le.mp hlate, secret, hmem, hopens⟩

/-- What is not continued is unlocked by a secret that opens it. -/
lemma unlockUnpend_eq {upper : Duration} {p : Pending}
    (h : (Channel.unlockUnpend crypto secrets upper p).isContinue = false) :
    ∃ s ∈ secrets, Opens crypto s p.lock ∧
      Channel.unlockUnpend crypto secrets upper p = .unlock s.bytes := by
  obtain ⟨hlate, -⟩ := isContinue_unlockUnpend.mp h
  rw [Channel.unlockUnpend, if_neg (not_le.mpr hlate)] at h ⊢
  rcases hlookup : Tx.Channel.lookup crypto secrets p.lock with _ | secret
  · simp [hlookup, Unpend.isContinue] at h
  · obtain ⟨hmem, hopens⟩ := lookup_eq_some hlookup
    exact ⟨secret, hmem, hopens, rfl⟩

/-- The kernel lets a secret free what it opens until the timeout. -/
lemma free_iff {t : Kernel.Timestamp} {p : Pending} (h : Opens crypto secret p.lock) :
    Kernel.Unlock.free crypto (.finite t) (Unpend.unlock secret.bytes).toKernel p.toKernel =
        some () ↔ t ≤ p.timeout.toInt := by
  have hlock : (crypto.sha256 secret.bytes.1).1 = p.lock.bytes.1 :=
    congrArg (fun lock : Lock => lock.bytes.1) h
  have hlen : secret.bytes.1.length = 32 := secret.bytes.2
  simp only [Kernel.Unlock.free, Unpend.toKernel, Pending.toKernel, hlock, hlen,
    Option.bind_eq_bind, Kernel.expect_of, Option.bind_some, Kernel.Timebound.finite?]
  exact Kernel.expect_eq_some

end Secrets

/-! ### What a built unlock is to do -/

/-- The kernel accepts the step at every upper bound up to the given one, and every pending
that a secret opens and that the kernel would free at that bound is unlocked. -/
structure UnlockValid (crypto : Crypto) (constants : Kernel.Constants) (valueIn : Kernel.Value)
    (pendsAmount : Kernel.Amount) (pends : List Kernel.Pending) (secrets : List Secret)
    (upper : Duration) (unpends : List Unpend) (amount : UInt64) (stage : Stage) : Prop where
  accepted : ∀ lower (t : Kernel.Timestamp), t * 10 ^ 6 ≤ upper.nanos →
    ∃ vkey, Kernel.cont crypto ⟨lower, .finite t⟩ constants valueIn (.responded pendsAmount pends)
      (Kernel.ada (amount + minAdaBuffer).toNat) stage.toKernel
      (Cont.unlock unpends).toKernel = some vkey
  claimed : ∀ x ∈ pends.zip unpends,
    (∃ s ∈ secrets, (crypto.sha256 s.bytes.1).1 = x.1.lock) → (upper.asMillis : ℤ) ≤ x.1.timeout →
      ∃ s ∈ secrets, (crypto.sha256 s.bytes.1).1 = x.1.lock ∧ x.2 = .unlock s.bytes

/-- A secret of the list opens the pending. -/
def opened (crypto : Crypto) (secrets : List Secret) (p : Pending) : Bool :=
  secrets.any fun s => Lock.ofSecret crypto s = p.lock

/-- The upper bound lies within the millisecond after the timeout of every pending that is
opened, and the total of the pendings tallies. -/
structure UnlockHolds (crypto : Crypto) (secrets : List Secret) (upper : Duration)
    (pendingsAmount : UInt64) (pendings : List Pending) : Prop where
  within : ∀ p ∈ pendings, opened crypto secrets p →
    p.timeout < upper ∧ upper.asMillis ≤ p.timeout.asMillis
  tallies : Tallies (opened crypto secrets) pendings pendingsAmount

section Built

variable {crypto : Crypto} {constants : Kernel.Constants} {secrets : List Secret}
  {upper : Duration} {pendingsAmount lovelace : UInt64} {pendings : List Pending}
  {valueIn : Kernel.Value}

lemma opened_iff {p : Pending} :
    opened crypto secrets p = true ↔ ∃ s ∈ secrets, Opens crypto s p.lock := by
  simp [opened, Opens]

/-- No more is taken than what is freed, even when its sum does not fit in a word. -/
lemma withdrawn_le {freed : ℕ} {gain : UInt64} (hgain : gain.toNat ≤ freed) :
    (lovelace.toNat : ℤ) - (Word.satSub (debufferAmount lovelace) gain + minAdaBuffer).toNat ≤
      freed := by
  have hbuffer : minAdaBuffer.toNat = 2_000_000 := rfl
  have hlt := lovelace.toNat_lt
  rw [UInt64.toNat_add, Word.toNat_satSub, toNat_debufferAmount, hbuffer]
  omega

/-- What is left to do on chain once an unlock is built. -/
lemma cont_unlock_iff {lower : Kernel.Timebound} {t : Kernel.Timestamp}
    {vkey : Kernel.VerificationKey} {gain : UInt64}
    (hvalue : Kernel.amountIn valueIn = lovelace.toNat)
    (hgain : gain = Word.sum
      ((freed (Channel.unlockUnpend crypto secrets upper) pendings).map Pending.amount)) :
    Kernel.cont crypto ⟨lower, .finite t⟩ constants valueIn
        (.responded pendingsAmount.toNat (pendings.map Pending.toKernel))
        (Kernel.ada (Word.satSub (debufferAmount lovelace) gain + minAdaBuffer).toNat)
        (Stage.responded
          (Word.sum ((Channel.remaining pendings
            (pendings.map (Channel.unlockUnpend crypto secrets upper))).map Pending.amount))
          (Channel.remaining pendings
            (pendings.map (Channel.unlockUnpend crypto secrets upper)))).toKernel
        (Cont.unlock (pendings.map (Channel.unlockUnpend crypto secrets upper))).toKernel =
          some vkey ↔
      (∀ p ∈ pendings, (Channel.unlockUnpend crypto secrets upper p).isContinue = false →
        t ≤ p.timeout.toInt) ∧
      ((Word.sum ((Channel.remaining pendings
          (pendings.map (Channel.unlockUnpend crypto secrets upper))).map
            Pending.amount)).toNat : ℤ) =
        pendingsAmount.toNat - Kernel.Pends.freedAmount
          ((pendings.map (Channel.unlockUnpend crypto secrets upper)).map Unpend.toKernel)
          (pendings.map Pending.toKernel) ∧
      vkey = constants.subVkey := by
  have hwithdrawn := @withdrawn_le lovelace
    (((freed (Channel.unlockUnpend crypto secrets upper) pendings).map
      fun p => p.amount.toNat).sum) gain (by
      rw [hgain, Word.toNat_sum_map]
      exact Nat.mod_le _ _)
  refine Kernel.Unlock.do_eq_some.trans ?_
  rw [hvalue, freedAmount_toKernel, freed_toKernel, List.length_map, List.length_map,
    List.length_map, remaining_toKernel, remaining_eq]
  constructor
  · rintro ⟨-, -, hfree, -, htally, rfl⟩
    refine ⟨fun p hp hfreed => ?_, htally, rfl⟩
    obtain ⟨s, hs, hopens, heq⟩ := unlockUnpend_eq hfreed
    have hmem : p ∈ freed (Channel.unlockUnpend crypto secrets upper) pendings :=
      List.mem_filter.mpr ⟨hp, by simp [hfreed]⟩
    have hfree := hfree _ (List.mem_map_of_mem hmem)
    rw [heq] at hfree
    exact (free_iff hopens).mp hfree
  · rintro ⟨htime, htally, rfl⟩
    refine ⟨⟨_, Kernel.amountOut_ada _, hwithdrawn⟩, le_rfl, ?_, rfl, htally, rfl⟩
    rw [List.forall_mem_map]
    intro p hp
    obtain ⟨hp, hfreed⟩ := List.mem_filter.mp hp
    have hfreed : (Channel.unlockUnpend crypto secrets upper p).isContinue = false := by
      simpa using hfreed
    obtain ⟨s, hs, hopens, heq⟩ := unlockUnpend_eq hfreed
    rw [heq]
    exact (free_iff hopens).mpr (htime p hp hfreed)

/-- An unlock that is built is valid exactly when it holds. -/
theorem unlockValid_iff (hvalue : Kernel.amountIn valueIn = lovelace.toNat)
    (hcanonical : ∀ p ∈ pendings, p.timeout.Canonical) {gain : UInt64}
    (hgain : gain = Word.sum
      ((freed (Channel.unlockUnpend crypto secrets upper) pendings).map Pending.amount)) :
    UnlockValid crypto constants valueIn pendingsAmount.toNat (pendings.map Pending.toKernel)
        secrets upper (pendings.map (Channel.unlockUnpend crypto secrets upper))
        (Word.satSub (debufferAmount lovelace) gain)
        (.responded
          (Word.sum ((Channel.remaining pendings
            (pendings.map (Channel.unlockUnpend crypto secrets upper))).map Pending.amount))
          (Channel.remaining pendings
            (pendings.map (Channel.unlockUnpend crypto secrets upper)))) ↔
      UnlockHolds crypto secrets upper pendingsAmount pendings := by
  have hmillis : ∀ p ∈ pendings, p.timeout.toInt = p.timeout.asMillis :=
    fun p hp => Duration.toInt_of_canonical (hcanonical p hp)
  have hrun := fun lower t vkey => @cont_unlock_iff crypto constants secrets upper pendingsAmount
    lovelace pendings valueIn lower t vkey gain hvalue hgain
  have hzip : (pendings.map Pending.toKernel).zip
      (pendings.map (Channel.unlockUnpend crypto secrets upper)) =
        pendings.map fun p => (p.toKernel, Channel.unlockUnpend crypto secrets upper p) :=
    List.zip_map'
  -- when the bound is within the millisecond, what is opened is freed
  have hfrees : (∀ p ∈ pendings, opened crypto secrets p →
      p.timeout < upper ∧ upper.asMillis ≤ p.timeout.asMillis) → ∀ p ∈ pendings,
        opened crypto secrets p = !(Channel.unlockUnpend crypto secrets upper p).isContinue := by
    intro hwithin p hp
    rw [Bool.eq_iff_iff, Bool.not_eq_true', isContinue_unlockUnpend]
    constructor
    · exact fun hopened => ⟨(hwithin p hp hopened).1, opened_iff.mp hopened⟩
    · exact fun hfreed => opened_iff.mpr hfreed.2
  constructor
  · intro hvalid
    obtain ⟨vkey, hvkey⟩ := hvalid.accepted .negativeInfinity upper.asMillis
      (Duration.le_asMillis_iff.mpr le_rfl)
    obtain ⟨htime, htally, -⟩ := (hrun _ _ _).mp hvkey
    have hwithin : ∀ p ∈ pendings, opened crypto secrets p →
        p.timeout < upper ∧ upper.asMillis ≤ p.timeout.asMillis := by
      intro p hp hopened
      obtain ⟨s, hs, hopens⟩ := opened_iff.mp hopened
      by_cases hlate : p.timeout < upper
      · have hle := htime p hp (isContinue_unlockUnpend.mpr ⟨hlate, s, hs, hopens⟩)
        rw [hmillis p hp] at hle
        exact ⟨hlate, by exact_mod_cast hle⟩
      · -- an early pending is to be claimed, and is continued
        have hle : upper.asMillis ≤ p.timeout.asMillis :=
          Nat.div_le_div_right (not_lt.mp hlate : upper.nanos ≤ p.timeout.nanos)
        have hmem : (p.toKernel, Channel.unlockUnpend crypto secrets upper p) ∈
            (pendings.map Pending.toKernel).zip
              (pendings.map (Channel.unlockUnpend crypto secrets upper)) := by
          rw [hzip]
          exact List.mem_map_of_mem hp
        have hsha : (crypto.sha256 s.bytes.1).1 = p.lock.bytes.1 :=
          congrArg (fun lock : Lock => lock.bytes.1) hopens
        obtain ⟨_, -, -, heq⟩ := hvalid.claimed _ hmem ⟨s, hs, hsha⟩ (by
          change (upper.asMillis : ℤ) ≤ p.timeout.toInt
          rw [hmillis p hp]
          exact_mod_cast hle)
        have hfreed : (Channel.unlockUnpend crypto secrets upper p).isContinue = false := by
          rw [show Channel.unlockUnpend crypto secrets upper p = _ from heq]
          rfl
        exact absurd (isContinue_unlockUnpend.mp hfreed).1 hlate
    exact ⟨hwithin, (tallies_iff (hfrees hwithin)).mpr htally⟩
  · rintro ⟨hwithin, htallies⟩
    constructor
    · intro lower t ht
      refine ⟨_, (hrun lower t _).mpr ⟨fun p hp hfreed => ?_,
        (tallies_iff (hfrees hwithin)).mp htallies, rfl⟩⟩
      obtain ⟨-, hopens⟩ := isContinue_unlockUnpend.mp hfreed
      obtain ⟨-, hle⟩ := hwithin p hp (opened_iff.mpr hopens)
      rw [hmillis p hp]
      exact (Duration.le_asMillis_iff.mp ht).trans (by exact_mod_cast hle)
    · intro x hx hsecret _
      rw [hzip] at hx
      obtain ⟨p, hp, rfl⟩ := List.mem_map.mp hx
      obtain ⟨s, hs, hsha⟩ := hsecret
      have hopens : Opens crypto s p.lock := by
        change (⟨crypto.sha256 s.bytes.1⟩ : Lock) = p.lock
        exact congrArg Lock.mk (Subtype.ext hsha)
      obtain ⟨hlate, -⟩ := hwithin p hp (opened_iff.mpr ⟨s, hs, hopens⟩)
      obtain ⟨s', hs', hopens', heq⟩ :=
        unlockUnpend_eq (isContinue_unlockUnpend.mpr ⟨hlate, s, hs, hopens⟩)
      exact ⟨s', hs', congrArg (fun lock : Lock => lock.bytes.1) hopens', heq⟩

end Built

/-- What the second builder makes of a responded channel. -/
lemma resolve_unlock_eq {crypto : Crypto} {channel : Channel} {pendingsAmount : UInt64}
    {pendings : List Pending} (hstage : channel.stage = .responded pendingsAmount pendings)
    (secrets : List Secret) (lower : Option Duration) (upper : Duration) :
    channel.resolve crypto (.unlock secrets) ⟨lower, some upper⟩ =
      let unpends := pendings.map (Channel.unlockUnpend crypto secrets upper)
      let gain := Word.sum
        ((freed (Channel.unlockUnpend crypto secrets upper) pendings).map Pending.amount)
      .ok (.cont
        (channel.stepped (Word.satSub channel.amount gain)
          (.responded (Word.sum ((Channel.remaining pendings unpends).map Pending.amount))
            (Channel.remaining pendings unpends)))
        (.unlock unpends gain)) := by
  have hfreed := filter_zip_map (Channel.unlockUnpend crypto secrets upper)
    (fun u => !u.isContinue) pendings
  simp only [Channel.resolve, Channel.wantUnlock, hstage]
  rw [freed, ← hfreed, List.map_map]
  rfl

/-- **Unlocks of the second builder.**  The kernel accepts what the builder makes of a
responded channel with a datum of its own, and nothing that can be claimed is left, just when the
upper bound lies within the millisecond after the timeout of every pending that is opened: for an
upper bound in whole milliseconds, when none is. -/
theorem unlock_valid_iff {crypto : Crypto} {hash ownHash : Kernel.ScriptHash}
    {output : Kernel.Output} {channel : Channel} {constants : Kernel.Constants}
    {pendsAmount : Kernel.Amount} {pends : List Kernel.Pending}
    (hchannel : Channel.tryFrom hash output = .ok channel) (hown : channel.Own output)
    (honChain : output.channel = some ⟨ownHash, constants, .responded pendsAmount pends⟩)
    {pendingsAmount : UInt64} {pendings : List Pending}
    (hstage : channel.stage = .responded pendingsAmount pendings) (secrets : List Secret)
    (lower : Option Duration) (upper : Duration) :
    (∀ will, channel.resolve crypto (.unlock secrets) ⟨lower, some upper⟩ = .ok will →
      ∃ output' unpends gain, will = .cont output' (.unlock unpends gain) ∧
        UnlockValid crypto constants output.value pendsAmount pends secrets upper unpends
          output'.amount output'.stage) ↔
      UnlockHolds crypto secrets upper pendingsAmount pendings := by
  have hreads := Channel.reads_of_onChain hchannel honChain
  have honStage := hreads.stage_toKernel hown
  have hcanonical := hreads.canonical_stage
  rw [hstage] at honStage hcanonical
  obtain ⟨rfl, rfl⟩ := Kernel.Stage.responded.inj honStage
  have hvalid := @unlockValid_iff crypto constants secrets upper pendingsAmount output.lovelace
    pendings output.value (Kernel.Output.amountIn_value output) hcanonical _ rfl
  rw [← hreads.amount] at hvalid
  rw [resolve_unlock_eq hstage, ← hvalid]
  constructor
  · intro h
    obtain ⟨_, _, _, heq, hvalid⟩ := h _ rfl
    obtain ⟨rfl, hstep⟩ := Will.cont.inj heq
    obtain ⟨rfl, -⟩ := WillCont.unlock.inj hstep
    exact hvalid
  · intro h will hwill
    obtain rfl := Except.ok.inj hwill
    exact ⟨_, _, _, rfl, h⟩

/-! ### A channel with one pending -/

namespace Sample

/-- A secret of zero bytes. -/
def zeroSecret : Secret := ⟨BytesN.fill 32 0⟩

/-- One ada, to be unlocked by the zero secret until second 500. -/
def pending : Pending := ⟨1_000_000, .fromSecs 500, ⟨Crypto.zeroLock⟩⟩

/-- A responded channel with a pending that the secret opens. -/
def responded : Kernel.Output :=
  output 3_000_000 (.constr 2 [.int 1_000_000,
    .list [.list [.int 1_000_000, .int 500_000, .bytes Crypto.zeroLock.1]]])

lemma tryFrom_responded :
    Channel.tryFrom hash responded = .ok (channel 1_000_000 (.responded 1_000_000 [pending])) := by
  rfl

lemma channel_responded : responded.channel =
    some ⟨hash, constants.toKernel, .responded 1_000_000 [pending.toKernel]⟩ := by
  rfl

lemma own_responded :
    (channel 1_000_000 (.responded 1_000_000 [pending])).Own responded :=
  ⟨_, channel_responded⟩

end Sample

/-- Half a millisecond after the timeout the unlock that is built is valid. -/
theorem unlock_valid_of_sample :
    ∃ will, (Sample.channel 1_000_000 (.responded 1_000_000 [Sample.pending])).resolve .noCrypto
        (.unlock [Sample.zeroSecret]) ⟨none, some ⟨500_000_500_000, by decide⟩⟩ = .ok will ∧
      ∃ output' unpends gain, will = .cont output' (.unlock unpends gain) ∧
        UnlockValid .noCrypto Sample.constants.toKernel Sample.responded.value 1_000_000
          [Sample.pending.toKernel] [Sample.zeroSecret] ⟨500_000_500_000, by decide⟩ unpends
          output'.amount output'.stage := by
  have hvalid := @unlock_valid_iff .noCrypto _ _ _ _ _ _ _ Sample.tryFrom_responded
    Sample.own_responded Sample.channel_responded _ _ rfl [Sample.zeroSecret] none
    ⟨500_000_500_000, by decide⟩
  have hwill := @resolve_unlock_eq .noCrypto
    (Sample.channel 1_000_000 (.responded 1_000_000 [Sample.pending])) _ _ rfl
    [Sample.zeroSecret] none ⟨500_000_500_000, by decide⟩
  exact ⟨_, hwill, hvalid.mpr ⟨by decide, by decide⟩ _ hwill⟩

/-- A pending whose secret is at hand is continued before its timeout. -/
theorem unlock_invalid :
    ¬∀ (crypto : Crypto) (hash ownHash : Kernel.ScriptHash) (output : Kernel.Output)
      (channel : Channel) (constants : Kernel.Constants) (pendsAmount : Kernel.Amount)
      (pends : List Kernel.Pending) (secrets : List Secret) (lower : Option Duration)
      (upper : Duration) (will : Will),
      Channel.tryFrom hash output = .ok channel →
      channel.Own output →
      output.channel = some ⟨ownHash, constants, .responded pendsAmount pends⟩ →
      channel.resolve crypto (.unlock secrets) ⟨lower, some upper⟩ = .ok will →
      ∃ output' unpends gain, will = .cont output' (.unlock unpends gain) ∧
        UnlockValid crypto constants output.value pendsAmount pends secrets upper unpends
          output'.amount output'.stage := by
  intro h
  obtain ⟨_, _, _, heq, hvalid⟩ := h .noCrypto Sample.hash _ Sample.responded _ _ _ _
    [Sample.zeroSecret] none (.fromSecs 100) _ Sample.tryFrom_responded Sample.own_responded
    Sample.channel_responded rfl
  obtain ⟨rfl, hstep⟩ := Will.cont.inj heq
  obtain ⟨rfl, -⟩ := WillCont.unlock.inj hstep
  obtain ⟨_, -, -, hunlock⟩ := hvalid.claimed (Sample.pending.toKernel, .continue) (by decide)
    (by decide) (by decide)
  cases hunlock

end Konduit.Tx2
