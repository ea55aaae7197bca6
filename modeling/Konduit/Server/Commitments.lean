import Mathlib.Order.Monotone.Defs
import Konduit.Server.Channel
import Konduit.Tmp.PayBody

/-!
# Commitments of the adaptor

Before the adaptor pays an invoice over Lightning it holds the cheque against it: the lock,
the amount, and the time.  What it then asks of its node should be covered by the cheque in
amount (`commitments_covered_iff`), in time (`timeLock_bounded_iff`), and by what the
consumer has signed (`timeouts_signed_iff`).
-/

open Lib

namespace Konduit.Server

open Data Tmp Bln

/-- The lovelace that the adaptor keeps of a cheque. -/
def feePlaceholder : UInt64 := 1000

/-- Forty blocks of ten minutes. -/
def adaptorTimeDelta : Duration := .fromSecs (40 * 10 * 60)

/-- Why a cheque does not pay for an invoice. -/
inductive CommitmentError where
  | lock
  | fee
  | time
deriving DecidableEq

/-- Why a payment is not sent. -/
inductive PayError where
  | commitment (e : CommitmentError)
  | channel (e : ChannelError)
  | bln
deriving DecidableEq

/-- A duration as it is written, in whole milliseconds. -/
def toKonduitDuration (x : Duration) : Duration := .fromMillis x.toU64

/-- A duration as it was written, in whole milliseconds. -/
def fromKonduitDuration (x : Duration) : Duration := .fromMillis x.toU64

/-- The fee and the time that the cheque leaves for the payment. -/
def alignCommitments (lovelaceToMsat : UInt64 → UInt64) (now : Duration)
    (locked : Locked .unverified) (invoice : Invoice) :
    Except CommitmentError (UInt64 × Duration) :=
  if invoice.paymentHash ≠ locked.body.lock.bytes then .error .lock
  else
    let feeLimit :=
      Word.satSub (lovelaceToMsat (locked.amount - feePlaceholder)) invoice.amountMsat
    if feeLimit < 1 then .error .fee
    else
      let relativeTimeout :=
        (locked.timeout.saturatingSub now).saturatingSub (toKonduitDuration adaptorTimeDelta)
      if relativeTimeout.asSecs < 1 then .error .time
      else .ok (feeLimit, relativeTimeout)

/-- What is asked of the client for a payment. -/
def blnPay (invoice : Invoice) (feeLimit : UInt64) (relTimeout : Duration) : PayRequest :=
  ⟨feeLimit, fromKonduitDuration relTimeout, invoice⟩

/-- Take the cheque, then send the payment to the node. -/
def pay (crypto : Crypto) (lovelaceToMsat : UInt64 → UInt64) (config : Config) (now : Duration)
    (channel : Channel) (locked : Locked .unverified) (invoice : Invoice) :
    Except PayError (Channel × RouterRequest) := do
  let (feeLimit, relTimeout) ←
    (alignCommitments lovelaceToMsat now locked invoice).mapError .commitment
  let channel ← (channel.applyLocked crypto locked).mapError .channel
  match config.payBody (blnPay invoice feeLimit relTimeout) with
  | some request => return (channel, request)
  | none => throw .bln

/-! ### What is accepted -/

section Accepted

variable {lovelaceToMsat : UInt64 → UInt64} {now : Duration} {locked : Locked .unverified}
  {invoice : Invoice} {feeLimit : UInt64} {relTimeout : Duration} {config : Config}

/-- The time that a cheque leaves beside the adaptor's own, in nanoseconds. -/
def spare (timeout now : Duration) : ℕ := timeout.nanos - now.nanos - adaptorTimeDelta.nanos

/-- The request passes every check but the one for the fee. -/
def TimelyLock (now : Duration) (locked : Locked .unverified) (invoice : Invoice) : Prop :=
  invoice.paymentHash = locked.body.lock.bytes ∧ 10 ^ 9 ≤ spare locked.timeout now

instance (now : Duration) (locked : Locked .unverified) (invoice : Invoice) :
    Decidable (TimelyLock now locked invoice) :=
  inferInstanceAs (Decidable (_ ∧ _))

lemma asSecs_lt_one {d : Duration} : d.asSecs < 1 ↔ d.nanos < 10 ^ 9 := by
  rw [Duration.asSecs]
  omega

/-- An accepted request is in time, and the invoice leaves a fee. -/
lemma alignCommitments_eq_ok :
    alignCommitments lovelaceToMsat now locked invoice = .ok (feeLimit, relTimeout) ↔
      TimelyLock now locked invoice ∧
        invoice.amountMsat < lovelaceToMsat (locked.amount - feePlaceholder) ∧
        feeLimit = Word.satSub (lovelaceToMsat (locked.amount - feePlaceholder))
          invoice.amountMsat ∧
        relTimeout.nanos = spare locked.timeout now := by
  have hfee : Word.satSub (lovelaceToMsat (locked.amount - feePlaceholder)) invoice.amountMsat < 1 ↔
      ¬invoice.amountMsat < lovelaceToMsat (locked.amount - feePlaceholder) := by
    rw [UInt64.lt_iff_toNat_lt, UInt64.lt_iff_toNat_lt, Word.toNat_satSub, UInt64.toNat_one]
    omega
  have htime : ((locked.timeout.saturatingSub now).saturatingSub
      (toKonduitDuration adaptorTimeDelta)).nanos = spare locked.timeout now := rfl
  simp only [alignCommitments, TimelyLock, hfee, asSecs_lt_one, htime]
  split_ifs with hlock hlt htime'
  · exact iff_of_false (by simp) fun h => hlock h.1.1
  · exact iff_of_false (by simp) fun h => absurd htime' (not_lt.mpr h.1.2)
  · simp only [Except.ok.injEq, Prod.mk.injEq]
    constructor
    · rintro ⟨rfl, rfl⟩
      exact ⟨⟨not_not.mp hlock, not_lt.mp htime'⟩, hlt, rfl, htime⟩
    · rintro ⟨-, -, rfl, hrel⟩
      exact ⟨rfl, Duration.ext (htime.trans hrel.symm)⟩
  · exact iff_of_false (by simp) fun h => hlt h.2.1

lemma exists_aligned_iff :
    (∃ accepted, alignCommitments lovelaceToMsat now locked invoice = .ok accepted) ↔
      TimelyLock now locked invoice ∧
        invoice.amountMsat < lovelaceToMsat (locked.amount - feePlaceholder) := by
  constructor
  · rintro ⟨⟨feeLimit, relTimeout⟩, h⟩
    obtain ⟨htimely, hamount, -⟩ := alignCommitments_eq_ok.mp h
    exact ⟨htimely, hamount⟩
  · rintro ⟨htimely, hamount⟩
    have hlt : spare locked.timeout now < 2 ^ 64 * 10 ^ 9 :=
      lt_of_le_of_lt ((Nat.sub_le _ _).trans (Nat.sub_le _ _)) locked.timeout.lt
    exact ⟨(_, ⟨_, hlt⟩), alignCommitments_eq_ok.mpr ⟨htimely, hamount, rfl, rfl⟩⟩

/-- A payment that is sent was accepted. -/
lemma pay_eq_ok {crypto : Crypto} {channel channel' : Channel} {request : RouterRequest}
    (h : pay crypto lovelaceToMsat config now channel locked invoice = .ok (channel', request)) :
    ∃ feeLimit relTimeout,
      alignCommitments lovelaceToMsat now locked invoice = .ok (feeLimit, relTimeout) ∧
        channel.applyLocked crypto locked = .ok channel' ∧
        config.payBody (blnPay invoice feeLimit relTimeout) = some request := by
  simp only [pay, Result.bind_eq_ok, Result.mapError_eq_ok] at h
  obtain ⟨⟨feeLimit, relTimeout⟩, halign, channel'', happly, h⟩ := h
  split at h
  · rename_i request' hbody
    obtain ⟨rfl, rfl⟩ := Prod.mk.inj (Result.pure_eq_ok.mp h)
    exact ⟨feeLimit, relTimeout, halign, happly, hbody⟩
  · exact (Result.throw_eq_ok.mp h).elim

end Accepted

/-! ### Amounts -/

/-- The invoice and its fee are worth no more than the cheque less the adaptor's fee. -/
structure Covered (lovelaceToMsat : UInt64 → UInt64) (locked : Locked .unverified)
    (invoice : Invoice) (feeLimit : UInt64) : Prop where
  fee : feePlaceholder ≤ locked.amount
  amount : invoice.amountMsat.toNat + feeLimit.toNat ≤
    (lovelaceToMsat (locked.amount - feePlaceholder)).toNat

/-- **Amounts.**  What is accepted is covered, and so is what is sent, just when the cheque is
worth the adaptor's fee, or the request is refused: by the lock, by the time, or because the
difference, which wraps, leaves nothing over the invoice. -/
theorem commitments_covered_iff (lovelaceToMsat : UInt64 → UInt64) (now : Duration)
    (locked : Locked .unverified) (invoice : Invoice) :
    ((∀ feeLimit relTimeout,
        alignCommitments lovelaceToMsat now locked invoice = .ok (feeLimit, relTimeout) →
          Covered lovelaceToMsat locked invoice feeLimit) ∧
      ∀ crypto config channel channel' request,
        pay crypto lovelaceToMsat config now channel locked invoice = .ok (channel', request) →
          feePlaceholder ≤ locked.amount ∧
            invoice.amountMsat ≤ lovelaceToMsat (locked.amount - feePlaceholder)) ↔
      feePlaceholder ≤ locked.amount ∨ ¬TimelyLock now locked invoice ∨
        lovelaceToMsat (locked.amount - feePlaceholder) ≤ invoice.amountMsat := by
  constructor
  · rintro ⟨h, -⟩
    -- a cheque below the fee that is accepted is not covered
    by_contra hnot
    simp only [not_or, not_not, not_le] at hnot
    obtain ⟨hfee, htimely, hamount⟩ := hnot
    obtain ⟨⟨feeLimit, relTimeout⟩, halign⟩ := exists_aligned_iff.mpr ⟨htimely, hamount⟩
    have hcovered := h feeLimit relTimeout halign
    exact absurd hcovered.fee (not_le.mpr hfee)
  · intro hcond
    have hcovered : ∀ feeLimit relTimeout,
        alignCommitments lovelaceToMsat now locked invoice = .ok (feeLimit, relTimeout) →
          Covered lovelaceToMsat locked invoice feeLimit := by
      intro feeLimit relTimeout h
      obtain ⟨htimely, hamount, rfl, -⟩ := alignCommitments_eq_ok.mp h
      rcases hcond with hfee | hrefused | hle
      · refine ⟨hfee, ?_⟩
        rw [Word.toNat_satSub]
        rw [UInt64.lt_iff_toNat_lt] at hamount
        omega
      · exact absurd htimely hrefused
      · exact absurd hamount (not_lt.mpr hle)
    refine ⟨hcovered, fun crypto config channel channel' request h => ?_⟩
    obtain ⟨feeLimit, relTimeout, halign, -, -⟩ := pay_eq_ok h
    obtain ⟨-, hamount, -, -⟩ := alignCommitments_eq_ok.mp halign
    exact ⟨(hcovered _ _ halign).fee, hamount.le⟩

namespace Sample

/-- A cheque over one lovelace. -/
def cheque : Locked .unverified :=
  ⟨⟨1, 1, .fromSecs 100_000, ⟨BytesN.fill 32 0⟩⟩, ⟨BytesN.fill 64 0⟩⟩

/-- An invoice over a million times that, at one millisatoshi to the lovelace. -/
def invoice : Invoice := ⟨[], 1_000_000, BytesN.fill 32 0⟩

/-- Blocks come every ten minutes. -/
def config : Config := ⟨.fromSecs 600⟩

/-- A channel with 10000 lovelace, of which nothing was subbed. -/
def retainer : Retainer := ⟨10_000, 0, [], by decide⟩

/-- A channel with room for the cheque. -/
def channel : Channel :=
  ⟨⟨BytesN.fill 32 0⟩, ⟨[]⟩, some retainer, some (.new ⟨.zero, ⟨BytesN.fill 64 0⟩⟩), ⟨true⟩⟩

end Sample

/-- A cheque over less than the adaptor's fee pays for an invoice of any amount. -/
theorem commitments_not_covered :
    Monotone (id : UInt64 → UInt64) ∧
      ∃ feeLimit relTimeout,
        alignCommitments id .zero Sample.cheque Sample.invoice = .ok (feeLimit, relTimeout) ∧
          ¬Covered id Sample.cheque Sample.invoice feeLimit ∧
            ∃ channel' request, pay .noCrypto id Sample.config .zero Sample.channel Sample.cheque
              Sample.invoice = .ok (channel', request) :=
  ⟨monotone_id, _, _, rfl, fun h => absurd h.fee (by decide), _, _, rfl⟩

/-! ### Time -/

section Time

variable {lovelaceToMsat : UInt64 → UInt64} {now : Duration} {locked : Locked .unverified}
  {invoice : Invoice}

lemma asSecs_fromKonduitDuration {d : Duration} (h : d.asMillis < 2 ^ 64) :
    (fromKonduitDuration d).asSecs = d.asSecs := by
  have hmillis : d.toU64.toNat = d.asMillis := by
    rw [Duration.toNat_toU64, Nat.mod_eq_of_lt h]
  simp only [fromKonduitDuration, Duration.fromMillis, Duration.asSecs, hmillis, Duration.asMillis]
  omega

/-- What is sent for an accepted request: a limit in whole seconds by the block. -/
lemma payBody_of_aligned {config : Config} (htimeout : locked.timeout.Canonical)
    (hsecs : 0 < config.blockTime.asSecs) {feeLimit : UInt64} {relTimeout : Duration}
    (h : alignCommitments lovelaceToMsat now locked invoice = .ok (feeLimit, relTimeout)) :
    ∃ request, config.payBody (blnPay invoice feeLimit relTimeout) = some request ∧
      request.cltvLimit = some (spare locked.timeout now / 10 ^ 9 / config.blockTime.asSecs) := by
  obtain ⟨-, -, -, hrel⟩ := alignCommitments_eq_ok.mp h
  have hmillis : relTimeout.asMillis < 2 ^ 64 := by
    have := Duration.asMillis_lt_of_canonical htimeout
    simp only [Duration.asMillis, hrel, spare] at this ⊢
    omega
  have hrelSecs : relTimeout.asSecs = spare locked.timeout now / 10 ^ 9 := by
    rw [Duration.asSecs, hrel]
  refine ⟨_, if_neg hsecs.ne', ?_⟩
  simp only [blnPay, asSecs_fromKonduitDuration hmillis, hrelSecs]

/-- In time, what is left is not negative. -/
lemma TimelyLock.le_iff (h : TimelyLock now locked invoice) (n : ℕ) :
    (n : ℤ) ≤ locked.timeout.nanos - adaptorTimeDelta.nanos - now.nanos ↔
      n ≤ spare locked.timeout now := by
  have hle := h.2
  rw [spare] at hle ⊢
  omega

/-- **Time.**  Of a cheque in whole milliseconds, the node may hold the payment no longer than
the cheque leaves beside the adaptor's own time, just when the request is refused, or there
is time for one block at least and the block time's parts of a second, which the division
drops, fit too. -/
theorem timeLock_bounded_iff (config : Config) (htimeout : locked.timeout.Canonical)
    (hblock : 10 ^ 9 ≤ config.blockTime.nanos) :
    (∀ feeLimit relTimeout request,
        alignCommitments lovelaceToMsat now locked invoice = .ok (feeLimit, relTimeout) →
        config.payBody (blnPay invoice feeLimit relTimeout) = some request →
        ∀ nodeMax, (config.blocksNanos (request.maxTimeLock nodeMax) : ℤ) ≤
          locked.timeout.nanos - adaptorTimeDelta.nanos - now.nanos) ↔
      ¬TimelyLock now locked invoice ∨
        lovelaceToMsat (locked.amount - feePlaceholder) ≤ invoice.amountMsat ∨
          (config.blockTime.asSecs ≤ spare locked.timeout now / 10 ^ 9 ∧
            spare locked.timeout now / 10 ^ 9 / config.blockTime.asSecs *
                config.blockTime.subsecNanos ≤
              spare locked.timeout now / 10 ^ 9 % config.blockTime.asSecs * 10 ^ 9 +
                spare locked.timeout now % 10 ^ 9) := by
  have hsecs : 0 < config.blockTime.asSecs := Nat.div_pos hblock (by norm_num)
  by_cases htimely : TimelyLock now locked invoice
  · by_cases hamount :
        invoice.amountMsat < lovelaceToMsat (locked.amount - feePlaceholder)
    · -- accepted: the condition is the one for the limit that is sent
      obtain ⟨⟨feeLimit, relTimeout⟩, halign⟩ := exists_aligned_iff.mpr ⟨htimely, hamount⟩
      obtain ⟨request, hbody, hlimit⟩ := payBody_of_aligned htimeout hsecs halign
      have hiff := Config.maxTimeLock_le_iff hlimit hsecs
      simp only [htimely, not_true, not_le.mpr hamount, false_or]
      rw [← hiff]
      constructor
      · exact fun h nodeMax => (htimely.le_iff _).mp (h _ _ _ halign hbody nodeMax)
      · intro h feeLimit' relTimeout' request' halign' hbody' nodeMax
        rw [halign] at halign'
        obtain ⟨rfl, rfl⟩ := Prod.mk.inj (Except.ok.inj halign')
        obtain rfl := Option.some.inj (hbody.symm.trans hbody')
        exact (htimely.le_iff _).mpr (h nodeMax)
    · refine iff_of_true (fun _ _ _ h => ?_) (Or.inr (Or.inl (not_lt.mp hamount)))
      exact absurd (alignCommitments_eq_ok.mp h).2.1 hamount
  · refine iff_of_true (fun _ _ _ h => ?_) (Or.inl htimely)
    exact absurd (alignCommitments_eq_ok.mp h).1 htimely

end Time

namespace Sample

/-- A cheque that leaves a number of seconds beside the adaptor's own time. -/
def chequeWith (secs : UInt64) : Locked .unverified :=
  ⟨⟨1, 10_000, .fromSecs (24_000 + secs), ⟨BytesN.fill 32 0⟩⟩, ⟨BytesN.fill 64 0⟩⟩

/-- An invoice over one satoshi. -/
def smallInvoice : Invoice := ⟨[], 1_000, BytesN.fill 32 0⟩

end Sample

/-- Where an hour is left and blocks take ten minutes, the time lock of what is sent is
bounded. -/
theorem timeLock_bounded_of_hour :
    ∃ feeLimit relTimeout request,
      alignCommitments id .zero (Sample.chequeWith 3600) Sample.smallInvoice =
        .ok (feeLimit, relTimeout) ∧
      Sample.config.payBody (blnPay Sample.smallInvoice feeLimit relTimeout) = some request ∧
      ∀ nodeMax, (Sample.config.blocksNanos (request.maxTimeLock nodeMax) : ℤ) ≤
        (Sample.chequeWith 3600).timeout.nanos - adaptorTimeDelta.nanos - Duration.zero.nanos := by
  have hbounded := (@timeLock_bounded_iff id .zero (Sample.chequeWith 3600) Sample.smallInvoice
    Sample.config (by decide) (by decide)).mpr (by decide)
  exact ⟨_, _, _, rfl, rfl, hbounded _ _ _ rfl rfl⟩

/-- Where a minute is left and blocks take ten, the request that is sent has a limit of zero,
and the node may take a fortnight. -/
theorem timeLock_unbounded :
    ∃ feeLimit relTimeout request,
      alignCommitments id .zero (Sample.chequeWith 60) Sample.smallInvoice =
        .ok (feeLimit, relTimeout) ∧
      Sample.config.payBody (blnPay Sample.smallInvoice feeLimit relTimeout) = some request ∧
      ¬(Sample.config.blocksNanos (request.maxTimeLock 2016) : ℤ) ≤
        (Sample.chequeWith 60).timeout.nanos - adaptorTimeDelta.nanos - Duration.zero.nanos :=
  ⟨_, _, _, rfl, rfl, by decide⟩

/-! ### Signed timeouts -/

section Signed

variable (crypto : Crypto)

/-- Whatever else is asked, a cheque that verifies and is accepted leaves the adaptor its time
by the integer that was signed. -/
def SignedInTime (body : ChequeBody Lock) : Prop :=
  ∀ (key : VerifyingKey) (tag : Tag) (signature : Signature) (lovelaceToMsat : UInt64 → UInt64)
    (nowMillis : UInt64) (invoice : Invoice) (verified : Locked .verified)
    (accepted : UInt64 × Duration),
    Locked.tryVerify crypto key tag ⟨body, signature⟩ = .ok verified →
    alignCommitments lovelaceToMsat (.fromMillis nowMillis) ⟨body, signature⟩ invoice =
      .ok accepted →
    (nowMillis.toNat : ℤ) + adaptorTimeDelta.toInt ≤ body.toKernel.timeout

/-- Two bodies with the same signed bytes are accepted alike. -/
def TreatedAlike (body body' : ChequeBody Lock) : Prop :=
  body.encode = body'.encode →
  ∀ (signature : Signature) (lovelaceToMsat : UInt64 → UInt64) (nowMillis : UInt64)
    (invoice : Invoice),
    (∃ accepted, alignCommitments lovelaceToMsat (.fromMillis nowMillis) ⟨body, signature⟩ invoice =
      .ok accepted) ↔
    ∃ accepted, alignCommitments lovelaceToMsat (.fromMillis nowMillis) ⟨body', signature⟩ invoice =
      .ok accepted

variable {crypto} {body body' : ChequeBody Lock}

/-- At whole milliseconds of the clock, parts of a millisecond in a timeout do not matter. -/
lemma le_spare_iff {timeout : Duration} {nowMillis : UInt64} :
    10 ^ 9 ≤ spare timeout (.fromMillis nowMillis) ↔
      nowMillis.toNat + 24_001_000 ≤ timeout.asMillis := by
  have hdelta : adaptorTimeDelta.nanos = 24_000 * 10 ^ 9 := rfl
  simp only [spare, hdelta, Duration.fromMillis, Duration.asMillis]
  omega

/-- The signed timeout is the one in memory just when that is below 2 ^ 64 milliseconds. -/
lemma signedInTime_iff : SignedInTime crypto body ↔ body.timeout.asMillis < 2 ^ 64 := by
  have hdelta : adaptorTimeDelta.toInt = 24_000_000 := rfl
  have hsigned : body.toKernel.timeout = ((body.timeout.asMillis % 2 ^ 64 : ℕ) : ℤ) := by
    rw [← Duration.toNat_toU64]
    rfl
  rw [SignedInTime]
  rw [hdelta, hsigned]
  constructor
  · intro h
    by_contra hge
    -- a clock at the signed timeout, which the one in memory is long past
    have hnow : (UInt64.ofNat (body.timeout.asMillis % 2 ^ 64)).toNat =
        body.timeout.asMillis % 2 ^ 64 :=
      UInt64.toNat_ofNat_of_lt' (Nat.mod_lt _ (by norm_num))
    let key : SigningKey := ⟨BytesN.fill 32 0⟩
    let signature := key.sign crypto (Tag.data ⟨[]⟩ body.encode)
    have hverify : Locked.tryVerify crypto (key.verifyingKey crypto) ⟨[]⟩ ⟨body, signature⟩ =
        .ok ⟨body, signature⟩ :=
      if_pos (key.verify_sign crypto _)
    have htimely : TimelyLock (.fromMillis (UInt64.ofNat (body.timeout.asMillis % 2 ^ 64)))
        ⟨body, signature⟩ ⟨[], 0, body.lock.bytes⟩ := by
      refine ⟨rfl, le_spare_iff.mpr ?_⟩
      show _ ≤ body.timeout.asMillis
      omega
    have hpos : (0 : UInt64) < 1 := by decide
    obtain ⟨accepted, haccepted⟩ :=
      (@exists_aligned_iff (fun _ => 1) _ ⟨body, signature⟩ ⟨[], 0, body.lock.bytes⟩).mpr
        ⟨htimely, hpos⟩
    have hle := h _ _ _ _ _ _ _ _ hverify haccepted
    rw [hnow] at hle
    omega
  · intro hlt key tag signature lovelaceToMsat nowMillis invoice verified accepted _ haccepted
    obtain ⟨⟨-, hspare⟩, -⟩ := exists_aligned_iff.mp ⟨accepted, haccepted⟩
    have := le_spare_iff.mp hspare
    rw [Nat.mod_eq_of_lt hlt]
    have hle : nowMillis.toNat + 24_001_000 ≤ body.timeout.asMillis := this
    omega

/-- Bodies with the same signed bytes differ in their timeouts at most. -/
lemma eq_of_encode (h : body.encode = body'.encode) :
    body.amount = body'.amount ∧ body.latch = body'.latch ∧
      body.timeout.toU64 = body'.timeout.toU64 := by
  have hdecode := ChequeBody.decode_encode body []
  rw [h, ChequeBody.decode_encode body' []] at hdecode
  -- the bytes are read back as either body, up to the timeouts
  have hwire : body'.wire = body.wire := congrArg Prod.fst (Option.some.inj hdecode)
  simp only [ChequeBody.wire, ChequeBody.mk.injEq] at hwire
  obtain ⟨-, hamount, htimeout, hlatch⟩ := hwire
  have := congrArg Duration.toU64 htimeout
  simp only [Duration.toU64_fromMillis] at this
  exact ⟨hamount.symm, hlatch.symm, this.symm⟩

lemma treatedAlike_of_lt (h : body.timeout.asMillis < 2 ^ 64)
    (h' : body'.timeout.asMillis < 2 ^ 64) : TreatedAlike body body' := by
  intro hencode signature lovelaceToMsat nowMillis invoice
  obtain ⟨hamount, hlatch, htimeout⟩ := eq_of_encode hencode
  have hmillis : body.timeout.asMillis = body'.timeout.asMillis := by
    have := congrArg UInt64.toNat htimeout
    rwa [Duration.toNat_toU64, Duration.toNat_toU64, Nat.mod_eq_of_lt h,
      Nat.mod_eq_of_lt h'] at this
  simp only [exists_aligned_iff, TimelyLock, le_spare_iff, ChequeBody.lock, ChequeSigned.timeout,
    ChequeSigned.amount, hamount, hlatch, hmillis]

variable (crypto)

/-- **Signed timeouts.**  For the cheque bodies of two pay requests, in whichever media type,
the adaptor relies on the timeouts that were signed, and treats them alike where the signed
bytes are the same, just when both timeouts are below 2 ^ 64 milliseconds. -/
theorem timeouts_signed_iff (parseInvoice : PayBody.ParseInvoice) (doc doc' : Document) :
    (∀ p p', PayBody.unmediate parseInvoice doc = some p →
        PayBody.unmediate parseInvoice doc' = some p' →
          SignedInTime crypto p.chequeBody ∧ SignedInTime crypto p'.chequeBody ∧
            TreatedAlike p.chequeBody p'.chequeBody) ↔
      ∀ p p', PayBody.unmediate parseInvoice doc = some p →
        PayBody.unmediate parseInvoice doc' = some p' →
          p.chequeBody.timeout.asMillis < 2 ^ 64 ∧ p'.chequeBody.timeout.asMillis < 2 ^ 64 := by
  refine forall₄_congr fun p p' _ _ => ?_
  rw [signedInTime_iff, signedInTime_iff]
  exact ⟨fun h => ⟨h.1, h.2.1⟩, fun h => ⟨h.1, h.2, treatedAlike_of_lt h.1 h.2⟩⟩

end Signed

/-- A pay request whose timeout is 384 milliseconds over 2 ^ 64. -/
def Sample.overlong : PayBody :=
  ⟨⟨1, 10_000, .fromSecs 18_446_744_073_709_552, ⟨BytesN.fill 32 0⟩⟩, ⟨BytesN.fill 64 0⟩,
    smallInvoice⟩

/-- The request is accepted as JSON; what was signed is a timeout of 384. -/
theorem timeout_not_signed :
    ∃ p verified accepted,
      PayBody.unmediate (fun _ => some Sample.smallInvoice)
          (.json (Sample.overlong.toJson "lnbc")) = some p ∧
        Locked.tryVerify .noCrypto ⟨BytesN.fill 32 0⟩ ⟨[]⟩ p.locked = .ok verified ∧
        alignCommitments id (.fromMillis 0) p.locked p.invoice = .ok accepted ∧
        p.chequeBody.toKernel.timeout = 384 ∧
        ¬(0 : ℤ) + adaptorTimeDelta.toInt ≤ p.chequeBody.toKernel.timeout :=
  ⟨Sample.overlong, _, _, PayBody.unmediate_toJson rfl, rfl, rfl, by decide, by decide⟩

end Konduit.Server
