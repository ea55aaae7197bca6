import Konduit.Tx.Reading

/-!
# Unlocks that are built off chain

An unlock frees the pendings whose secret is known and continues the others.  The builder
and the kernel walk through the same pendings: what the kernel wants in the continuing
datum are those that are continued, and it frees no pending after its timeout.
-/

open Lib

namespace Konduit.Tx

open Data

/-! ### The pendings of the two sides -/

/-- A list zipped with what is made of its elements, filtered by what is made of them. -/
lemma filter_zip_map {α β : Type} (f : α → β) (p : β → Bool) (l : List α) :
    ((l.zip (l.map f)).filter fun x => p x.2).map Prod.fst = l.filter fun a => p (f a) := by
  induction l with
  | nil => rfl
  | cons a l ih =>
    rw [List.map_cons, List.zip_cons_cons, List.filter_cons, List.filter_cons]
    by_cases h : p (f a) = true
    · simp [h, ih]
    · simp [h, ih]

/-- The pendings that the kernel continues. -/
lemma remaining_toKernel (f : Pending → Unpend) (pendings : List Pending) :
    Kernel.Pends.remaining ((pendings.map f).map Unpend.toKernel) (pendings.map Pending.toKernel) =
      (pendings.filter fun p => (f p).isContinue).map Pending.toKernel := by
  induction pendings with
  | nil => rfl
  | cons p pendings ih =>
    simp only [List.map_cons, List.filter_cons]
    rcases h : (f p).toKernel with _ | ⟨b, bs⟩
    · rw [Kernel.Pends.remaining, ih, if_pos (Unpend.toKernel_eq_nil.mp h), List.map_cons]
    · have hcont : ¬(f p).isContinue = true := fun hc => by
        simp [Unpend.toKernel_eq_nil.mpr hc] at h
      rw [Kernel.Pends.remaining, ih, if_neg hcont]

/-- Which pendings are continued does not depend on what they are. -/
lemma remaining_map (f : Kernel.Pending → Kernel.Pending) (unpends : List Kernel.Unpend)
    (pends : List Kernel.Pending) :
    Kernel.Pends.remaining unpends (pends.map f) =
      (Kernel.Pends.remaining unpends pends).map f := by
  induction unpends generalizing pends with
  | nil => cases pends <;> rfl
  | cons unpend unpends ih =>
    cases pends with
    | nil => cases unpend <;> rfl
    | cons p pends =>
      cases unpend with
      | nil => simp only [List.map_cons, Kernel.Pends.remaining, ih]
      | cons b bs => simp only [List.map_cons, Kernel.Pends.remaining, ih]

/-- The pendings of the built datum are those that are freed: they agree with those that the
kernel continues only where there are none. -/
lemma freed_eq_continued_iff {f : Pending → Unpend} {pendings : List Pending}
    (hcanonical : ∀ p ∈ pendings, p.timeout.Canonical) :
    (pendings.filter fun p => !(f p).isContinue).map Pending.toKernel =
        (pendings.filter fun p => (f p).isContinue).map Pending.toKernel ↔
      pendings = [] := by
  constructor
  · intro h
    refine List.eq_nil_iff_forall_not_mem.mpr fun p hp => ?_
    -- a pending of either kind has its image in the other list, where no equal one is
    have hmem : ∀ b : Bool, (f p).isContinue = b →
        p.toKernel ∈ (pendings.filter fun q => (f q).isContinue == b).map Pending.toKernel :=
      fun b hb => List.mem_map_of_mem (List.mem_filter.mpr ⟨hp, by simp [hb]⟩)
    have habs : ∀ b : Bool, (f p).isContinue = b →
        p.toKernel ∉ (pendings.filter fun q => (f q).isContinue == !b).map Pending.toKernel := by
      intro b hb hin
      obtain ⟨q, hq, heq⟩ := List.mem_map.mp hin
      obtain ⟨hq, hcont⟩ := List.mem_filter.mp hq
      obtain rfl := Pending.toKernel_inj (hcanonical q hq) (hcanonical p hp) heq
      simp [hb] at hcont
    cases hb : (f p).isContinue with
    | false =>
      refine habs false hb ?_
      have := hmem false hb
      simp only [beq_false, Bool.not_false, beq_true] at this ⊢
      rwa [h] at this
    | true =>
      refine habs true hb ?_
      have := hmem true hb
      simp only [beq_true, Bool.not_true, beq_false] at this ⊢
      rwa [← h] at this
  · rintro rfl
    rfl

/-! ### What an unlock is to do -/

/-- What an unlock does to the channel: every pending it frees is in time, the others stay
in order, and no more than the freed amount is taken. -/
structure UnlockEffect (t : Kernel.Timestamp) (unpends : List Kernel.Unpend)
    (pendsIn : List Kernel.Pending) (valueIn : Kernel.Value)
    (pendsAmountOut : Kernel.Amount) (pendsOut : List Kernel.Pending) (valueOut : Kernel.Value) :
    Prop where
  inTime : ∀ x ∈ Kernel.Pends.freed unpends pendsIn, t ≤ x.2.timeout
  pendsOut_eq : pendsOut = Kernel.Pends.remaining unpends pendsIn
  pendsAmountOut_eq :
    pendsAmountOut = Kernel.pendsAmount pendsIn - Kernel.Pends.freedAmount unpends pendsIn
  withdrawn : ∃ out, Kernel.amountOut valueOut = some out ∧
    Kernel.amountIn valueIn - out ≤ Kernel.Pends.freedAmount unpends pendsIn

/-- The built unlock is valid up to a time: the kernel accepts it, with the effect of an
unlock. -/
def Stepped.UnlockValid (self : Stepped) (crypto : Crypto) (constants : Kernel.Constants)
    (valueIn : Kernel.Value) (pendsIn : List Kernel.Pending) (t : Kernel.Timestamp) : Prop :=
  (∀ lower, ∃ vkey, self.run crypto ⟨lower, .finite t⟩ constants valueIn
      (.responded (Kernel.pendsAmount pendsIn) pendsIn) = some vkey) ∧
    ∃ unpends vars pendsAmountOut pendsOut, self.stepTo = .cont (.unlock unpends) vars ∧
      vars.stage.toKernel = .responded pendsAmountOut pendsOut ∧
      UnlockEffect t (unpends.map Unpend.toKernel) pendsIn valueIn pendsAmountOut pendsOut
        (Channel.mk self.channel.constants vars).bufferedValue

/-- What the kernel accepts has the effect of an unlock. -/
lemma UnlockEffect.of_do {crypto : Crypto} {t : Kernel.Timestamp} {constants : Kernel.Constants}
    {valueIn valueOut : Kernel.Value} {pendsIn pendsOut : List Kernel.Pending}
    {pendsAmountOut : Kernel.Amount} {unpends : List Kernel.Unpend} {vkey : Kernel.VerificationKey}
    (h : Kernel.Unlock.do crypto (.finite t) constants valueIn
      (.responded (Kernel.pendsAmount pendsIn) pendsIn) valueOut
      (.responded pendsAmountOut pendsOut) unpends = some vkey) :
    UnlockEffect t unpends pendsIn valueIn pendsAmountOut pendsOut valueOut := by
  obtain ⟨hout, -, hfree, hpends, hamount, -⟩ := Kernel.Unlock.do_eq_some.mp h
  refine ⟨fun x hx => ?_, hpends, hamount, hout⟩
  have := hfree x hx
  simp only [Kernel.Unlock.free, Option.bind_eq_bind, Option.bind_eq_some_iff,
    Kernel.expect_eq_some, Kernel.Timebound.finite?_eq_some, Kernel.Timebound.finite.injEq] at this
  obtain ⟨-, -, -, -, s, rfl, hs⟩ := this
  exact hs

/-! ### Built unlocks -/

section Built

variable {crypto : Crypto} {hash ownHash : Kernel.ScriptHash} {output : Kernel.Output}
  {constants : Kernel.Constants} {pendsAmount : Kernel.Amount} {pends : List Kernel.Pending}
  {channel : Channel}

/-- What is read of a responded channel. -/
lemma Channel.responded_of_tryFrom (h : Channel.tryFrom hash output = .ok channel)
    (honChain : output.channel = some ⟨ownHash, constants, .responded pendsAmount pends⟩) :
    ∃ amount pendings,
      channel.vars = ⟨debufferAmount output.lovelace, .responded amount pendings⟩ ∧
        pendings.map Pending.toKernel = pends.map Kernel.Pending.asRead ∧
          ∀ p ∈ pendings, p.timeout.Canonical := by
  obtain ⟨-, hstage, hcanonical, hamount⟩ := reads_of_onChain h honChain
  obtain ⟨constants', vars⟩ := channel
  obtain ⟨amount, stage⟩ := vars
  cases stage with
  | responded pendingsAmount pendings =>
    refine ⟨pendingsAmount, pendings, ?_, (Kernel.Stage.responded.inj hstage).2, hcanonical⟩
    rw [show amount = _ from hamount]
  | opened | closed => cases hstage

/-- What the builder makes of a responded channel. -/
lemma Channel.unlockWithSecrets_eq {amount pendsAmount : UInt64} {pendings : List Pending}
    (h : channel.vars = ⟨amount, .responded pendsAmount pendings⟩) (secrets : List Secret)
    (upper : Duration) :
    channel.unlockWithSecrets crypto secrets upper =
      let freed := pendings.filter fun p => !(unpend crypto secrets upper p).isContinue
      let gain := Word.sum (freed.map Pending.amount)
      .ok ⟨channel, .cont (.unlock (pendings.map (unpend crypto secrets upper)))
        ⟨Word.satSub amount gain, .responded gain freed⟩, Bounds.ofUpper upper⟩ := by
  have hfreed := filter_zip_map (unpend crypto secrets upper) (fun u => !u.isContinue) pendings
  simp only [unlockWithSecrets, stage, h, Variables.unlock, bind, Except.bind, pure, Except.pure]
  rw [hfreed, ← hfreed]
  simp [List.map_map, Function.comp_def]

/-- The buffer makes up for no more than what was read. -/
lemma toNat_debufferAmount_add (lovelace : UInt64) :
    lovelace.toNat ≤ (debufferAmount lovelace + minAdaBuffer).toNat := by
  have hbuffer : minAdaBuffer.toNat = 2_000_000 := rfl
  have hlt := lovelace.toNat_lt
  rw [UInt64.toNat_add, debufferAmount, Word.toNat_satSub, hbuffer]
  omega

/-- With no pendings the kernel accepts a step that leaves none and takes nothing. -/
lemma unlock_do_nil {t : Kernel.Timestamp} {valueIn valueOut : Kernel.Value} {out : Kernel.Amount}
    (hout : Kernel.amountOut valueOut = some out) (hle : Kernel.amountIn valueIn ≤ out) :
    Kernel.Unlock.do crypto (.finite t) constants valueIn (.responded (Kernel.pendsAmount []) [])
      valueOut (.responded 0 []) [] = some constants.subVkey := by
  refine Kernel.Unlock.do_eq_some.mpr ⟨⟨out, hout, ?_⟩, le_rfl, ?_, rfl, rfl, rfl⟩
  · simp only [Kernel.Pends.freedAmount, Kernel.Pends.freed, List.map_nil, Kernel.pendsAmount_nil]
    linarith
  · intro x hx
    simp [Kernel.Pends.freed] at hx

/-- **Built unlocks.**  The kernel accepts what the builder makes of a responded channel
just when the channel has no pendings: the builder keeps the pendings that it frees. -/
theorem Channel.unlockWithSecrets_valid_iff {valueIn : Kernel.Value}
    (hvalue : Kernel.amountIn valueIn = output.lovelace.toNat)
    (hchannel : Channel.tryFrom hash output = .ok channel)
    (honChain : output.channel =
      some ⟨ownHash, constants, .responded (Kernel.pendsAmount pends) pends⟩)
    (secrets : List Secret) (upper : Duration) :
    (∀ stepped, channel.unlockWithSecrets crypto secrets upper = .ok stepped →
        ∀ t : Kernel.Timestamp, t * 10 ^ 6 ≤ upper.nanos →
          stepped.UnlockValid crypto constants valueIn pends t) ↔
      pends = [] := by
  obtain ⟨amount, pendings, hvars, hmap, hcanonical⟩ := responded_of_tryFrom hchannel honChain
  rw [unlockWithSecrets_eq hvars]
  constructor
  · intro h
    obtain ⟨haccepted, -⟩ := h _ rfl 0 (by simp)
    obtain ⟨vkey, hvkey⟩ := haccepted .negativeInfinity
    simp only [Stepped.run, Kernel.cont, Cont.toKernel, Channel.stage, Stage.toKernel] at hvkey
    -- the kernel wants the continued pendings where the freed ones are
    have hpends := (Kernel.Unlock.do_eq_some.mp hvkey).2.2.2.1
    have hread := congrArg (List.map Kernel.Pending.asRead) hpends
    rw [← remaining_map, ← hmap, remaining_toKernel, List.map_map] at hread
    have hwritten : Kernel.Pending.asRead ∘ Pending.toKernel = Pending.toKernel :=
      funext Pending.asRead_toKernel
    rw [hwritten] at hread
    obtain rfl := (freed_eq_continued_iff hcanonical).mp hread
    exact List.map_eq_nil_iff.mp hmap.symm
  · rintro rfl
    obtain rfl : pendings = [] := List.map_eq_nil_iff.mp hmap
    intro stepped hstepped t _
    have hle : Kernel.amountIn valueIn ≤
        ((debufferAmount output.lovelace + minAdaBuffer).toNat : ℤ) := by
      rw [hvalue]
      exact_mod_cast toNat_debufferAmount_add output.lovelace
    -- nothing is gained, and the buffer is put back
    have hgain : Word.satSub (debufferAmount output.lovelace) 0 = debufferAmount output.lovelace :=
      UInt64.toNat_inj.mp (by simp)
    simp only [List.filter_nil, List.map_nil, Word.sum_nil, hgain, Except.ok.injEq] at hstepped
    subst hstepped
    have hdo := @unlock_do_nil crypto constants t valueIn _ _ (Kernel.amountOut_ada _) hle
    have hstage : (Stage.responded 0 []).toKernel = .responded 0 [] := rfl
    refine ⟨fun lower => ⟨constants.subVkey, ?_⟩, [], _, 0, [], rfl, hstage,
      UnlockEffect.of_do hdo⟩
    simp only [Stepped.run, Kernel.cont, Cont.toKernel, Channel.stage, hstage]
    exact hdo

end Built

/-! ### A channel with one pending -/

namespace Sample

/-- One ada, to be unlocked by the zero secret until second 500. -/
def pending : Pending := ⟨1_000_000, .fromSecs 500, ⟨Crypto.zeroLock⟩⟩

/-- A responded channel of an ada beside the buffer. -/
def responded (amount : ℤ) (pendings : List Plutus.Data) : Kernel.Output :=
  Tx2.Sample.output 3_000_000 (.constr 2 [.int amount, .list pendings])

/-- A pending cheque over one ada, as data. -/
def pendingData : Plutus.Data := .list [.int 1_000_000, .int 500_000, .bytes Crypto.zeroLock.1]

/-- A responded channel. -/
def channel (amount : UInt64) (pendings : List Pending) : Channel :=
  ⟨Tx2.Sample.constants, 1_000_000, .responded amount pendings⟩

lemma tryFrom_responded_nil :
    Channel.tryFrom Tx2.Sample.hash (responded 0 []) = .ok (channel 0 []) := by
  rfl

lemma tryFrom_responded :
    Channel.tryFrom Tx2.Sample.hash (responded 1_000_000 [pendingData]) =
      .ok (channel 1_000_000 [pending]) := by
  rfl

lemma channel_responded : (responded 1_000_000 [pendingData]).channel =
    some ⟨Tx2.Sample.hash, Tx2.Sample.constants.toKernel,
      .responded (Kernel.pendsAmount [pending.toKernel]) [pending.toKernel]⟩ := by
  rfl

end Sample

/-- With no pendings the built unlock is valid. -/
theorem Channel.unlockWithSecrets_valid_of_empty :
    Channel.tryFrom Tx2.Sample.hash (Sample.responded 0 []) = .ok (Sample.channel 0 []) ∧
      ∀ stepped, (Sample.channel 0 []).unlockWithSecrets .noCrypto [] (.fromSecs 100) =
          .ok stepped →
        ∀ t : Kernel.Timestamp, t * 10 ^ 6 ≤ (Duration.fromSecs 100).nanos →
          stepped.UnlockValid .noCrypto Tx2.Sample.constants.toKernel
            (Sample.responded 0 []).value [] t :=
  ⟨Sample.tryFrom_responded_nil, (Channel.unlockWithSecrets_valid_iff
    (Kernel.Output.amountIn_value _) Sample.tryFrom_responded_nil rfl [] (.fromSecs 100)).mpr rfl⟩

/-- With one pending past its timeout and its secret at hand, an unlock is built that the
kernel does not accept. -/
theorem Channel.unlockWithSecrets_invalid :
    ¬∀ (crypto : Crypto) (hash ownHash : Kernel.ScriptHash) (output : Kernel.Output)
      (constants : Kernel.Constants) (valueIn : Kernel.Value) (pends : List Kernel.Pending)
      (channel : Channel) (secrets : List Secret) (upper : Duration) (stepped : Stepped),
      Kernel.amountIn valueIn = output.lovelace.toNat →
      Channel.tryFrom hash output = .ok channel →
      output.channel = some ⟨ownHash, constants, .responded (Kernel.pendsAmount pends) pends⟩ →
      channel.unlockWithSecrets crypto secrets upper = .ok stepped →
      ∀ t : Kernel.Timestamp, t * 10 ^ 6 ≤ upper.nanos →
        stepped.UnlockValid crypto constants valueIn pends t := by
  intro h
  obtain ⟨haccepted, -⟩ := h .noCrypto _ _ _ _ _ _ _ [⟨BytesN.fill 32 0⟩] (.fromSecs 1000) _
    (Kernel.Output.amountIn_value _) Sample.tryFrom_responded Sample.channel_responded rfl
    1_000_000 (by decide)
  obtain ⟨vkey, hvkey⟩ := haccepted .negativeInfinity
  have hnone : none = some vkey := hvkey
  cases hnone

end Konduit.Tx
