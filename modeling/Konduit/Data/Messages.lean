import Konduit.Data.Signed

/-!
# Signed messages

What a consumer signs is a tag with the body of a cheque or of a squash.  Off chain and on chain
the message is the same bytes, so the checks of the two sides agree (`checksAgree`); and the bytes
determine the tag and the body, so that a signature serves for one body only.
-/

open Lib

namespace Konduit

/-! ### The check of cheques on chain -/

namespace Kernel.Conformance

/-- What a cheque is verified by, and the cheque. -/
structure Verify where
  key : VerificationKey
  tag : Tag
  cheque : Cheque

/-- Whether a cheque is signed; the script fails when it is not. -/
def verify (crypto : Crypto) (x : Verify) : Option Bool := do
  let (body, signature) ← match x.cheque with
    | .unlockedCheque body signature => do
      expect (body.latch.length = 32)
      let lock := (crypto.sha256 body.latch).1
      pure ({ body with latch := lock }, signature)
    | .lockedCheque body sig => pure (body, sig)
  expect (wellsigned crypto x.key x.tag body signature)
  return true

variable {crypto : Crypto} {key : VerificationKey} {tag : Tag} {body : ChequeBody}
  {signature : Signature}

lemma verify_locked :
    verify crypto ⟨key, tag, .lockedCheque body signature⟩ = some true ↔
      wellsigned crypto key tag body signature = true := by
  simp [verify, Option.bind_eq_some_iff]

lemma verify_unlocked :
    verify crypto ⟨key, tag, .unlockedCheque body signature⟩ = some true ↔
      body.latch.length = 32 ∧ wellsigned crypto key tag (body.locked crypto) signature = true := by
  simp [verify, Option.bind_eq_some_iff, ChequeBody.locked]

end Kernel.Conformance

namespace Data

/-- What is signed with a tag. -/
inductive Message where
  | cheque (body : ChequeBody Lock)
  | squash (body : SquashBody)
deriving DecidableEq

namespace Message

/-- The bytes that are signed, after the tag. -/
def encode : Message → Bytes
  | cheque body => body.encode
  | squash body => body.encode

/-- The body as the kernel serialises it. -/
def toData : Message → Plutus.Data
  | cheque body => Kernel.ToData.toData body.toKernel
  | squash body => Kernel.ToData.toData body.toKernel

/-- The timeout is a whole number of milliseconds in 64 bits, the exclude list is as the
constructors check it. -/
def WellFormed : Message → Prop
  | cheque body => body.timeout.Canonical
  | squash body => body.WellFormed

lemma data_encode (tag : Tag) (m : Message) :
    tag.data m.encode = Plutus.serialise (.list [.bytes tag.bytes, m.toData]) := by
  cases m with
  | cheque body => rw [encode, ChequeBody.encode_eq, Tag.data_serialise, toData]
  | squash body => rw [encode, SquashBody.encode_eq, Tag.data_serialise, toData]

/-! ### The bytes determine the message -/

/-- The third item of a squash body is no timeout. -/
lemma readUInt_exclude (exclude : Indexes) (b : Bytes) :
    Cbor.readUInt (exclude.encode ++ b) = none := by
  rw [Indexes.encode, Cbor.list]
  split_ifs <;> rfl

/-- A squash body is not read as a cheque body. -/
lemma decode_squashBody (body : SquashBody) (b : Bytes) :
    (ChequeBody.decode (body.encode ++ b) : Option (ChequeBody Lock × Bytes)) = none := by
  simp [ChequeBody.decode, Cbor.readFramed, ChequeBody.decodeFields, Duration.decode,
    SquashBody.encode, Cbor.framed, readUInt_exclude]

variable {m m' : Message} {b b' : Bytes}

lemma decode_cheque {body : ChequeBody Lock} (h : (cheque body).WellFormed) (b : Bytes) :
    ChequeBody.decode ((cheque body).encode ++ b) = some (body, b) := by
  rw [encode, ChequeBody.decode_encode, ChequeBody.wire_eq_self.mpr h]

lemma decode_squash {body : SquashBody} (h : (squash body).WellFormed) (b : Bytes) :
    SquashBody.decode ((squash body).encode ++ b) = some (body, b) := by
  exact (SquashBody.decode_encode body b).trans (if_pos h)

/-- Well-formed messages are told apart by their bytes, whatever comes after. -/
lemma eq_of_encode (h : m.WellFormed) (h' : m'.WellFormed) (heq : m.encode ++ b = m'.encode ++ b') :
    m = m' := by
  cases m with
  | cheque body =>
    have hread := decode_cheque h b
    rw [heq] at hread
    cases m' with
    | cheque body' =>
      rw [decode_cheque h'] at hread
      obtain ⟨rfl, -⟩ := Prod.mk.inj (Option.some.inj hread)
      rfl
    | squash body' => exact absurd ((decode_squashBody body' b').symm.trans hread) (by simp)
  | squash body =>
    cases m' with
    | cheque body' =>
      have hread := decode_cheque h' b'
      rw [← heq] at hread
      exact absurd ((decode_squashBody body b).symm.trans hread) (by simp)
    | squash body' =>
      have hread := decode_squash h b
      rw [heq, decode_squash h'] at hread
      obtain ⟨rfl, -⟩ := Prod.mk.inj (Option.some.inj hread)
      rfl

lemma eq_of_data {tag tag' : Tag} (h : m.WellFormed) (h' : m'.WellFormed)
    (heq : tag.data m.encode = tag'.data m'.encode) : tag = tag' ∧ m = m' := by
  have hinner : tag.encode ++ (m.encode ++ Cbor.stop) =
      tag'.encode ++ (m'.encode ++ Cbor.stop) := by
    simpa [Tag.data, Cbor.framed] using heq
  have hread := tag.decode_encode (m.encode ++ Cbor.stop)
  rw [hinner, tag'.decode_encode] at hread
  obtain ⟨rfl, hbody⟩ := Prod.mk.inj (Option.some.inj hread)
  exact ⟨rfl, eq_of_encode h h' hbody.symm⟩

end Message

/-! ### The checks agree -/

/-- The two sides agree on what is signed: on the timeouts and the bytes of messages, on squashes
and on cheques; and no two messages have the same bytes. -/
structure ChecksAgree (crypto : Crypto) : Prop where
  timeout : ∀ body : ChequeBody Lock, (Message.cheque body).WellFormed →
    body.toKernel.timeout * 10 ^ 6 = body.timeout.nanos
  bytes : ∀ (tag : Tag) (m : Message), m.WellFormed →
    tag.data m.encode = Plutus.serialise (.list [.bytes tag.bytes, m.toData])
  squash : ∀ (key : VerifyingKey) (tag : Tag) (squash : Squash .unverified),
    (∃ verified, squash.tryVerify crypto key tag = .ok verified) ↔
      Kernel.wellsigned crypto key.bytes.1 tag.bytes squash.toKernel.body
        squash.toKernel.signature = true
  locked : ∀ (key : VerifyingKey) (tag : Tag) (locked : Locked .unverified),
    (∃ verified, Locked.tryVerify crypto key tag locked = .ok verified) ↔
      Kernel.Conformance.verify crypto
        ⟨key.bytes.1, tag.bytes, (Cheque.locked locked).toKernel⟩ = some true
  unlocked : ∀ (key : VerifyingKey) (tag : Tag) (unlocked : Unlocked .unverified),
    (∃ verified, Unlocked.tryVerify crypto key tag unlocked = .ok verified) ↔
      (Kernel.unlocked (Kernel.wellsigned crypto key.bytes.1 tag.bytes) crypto
        (Unlocked.toKernel unlocked).body (Unlocked.toKernel unlocked).signature).isSome
  unlockedCheque : ∀ (key : VerifyingKey) (tag : Tag) (unlocked : Unlocked .unverified),
    (∃ verified, Unlocked.tryVerify crypto key tag unlocked = .ok verified) ↔
      Kernel.Conformance.verify crypto
        ⟨key.bytes.1, tag.bytes, (Cheque.unlocked unlocked).toKernel⟩ = some true
  injective : ∀ (tag tag' : Tag) (m m' : Message), m.WellFormed → m'.WellFormed →
    tag.data m.encode = tag'.data m'.encode → tag = tag' ∧ m = m'

section

variable {crypto : Crypto} {key : VerifyingKey} {tag : Tag}

lemma Squash.exists_verified_iff {self : Squash .unverified} :
    (∃ verified, self.tryVerify crypto key tag = .ok verified) ↔ self.Verifies crypto key tag :=
  Result.exists_check_eq_ok.trans Result.check_eq_ok.symm

lemma Locked.exists_verified_iff {self : Locked .unverified} :
    (∃ verified, Locked.tryVerify crypto key tag self = .ok verified) ↔
      Locked.Verifies crypto key tag self :=
  Result.exists_check_eq_ok.trans Result.check_eq_ok.symm

lemma Unlocked.exists_verified_iff {self : Unlocked .unverified} :
    (∃ verified, Unlocked.tryVerify crypto key tag self = .ok verified) ↔
      Unlocked.Verifies crypto key tag self :=
  Result.exists_check_eq_ok.trans Result.check_eq_ok.symm

end

/-- **The checks agree.**  Off chain and on chain the same bytes are signed, so a squash or a
cheque verifies on one side if and only if it does on the other; and the bytes determine the tag
and the body. -/
theorem checksAgree (crypto : Crypto) : ChecksAgree crypto where
  timeout body h := by
    rw [Duration.nanos_of_canonical h, ChequeBody.toKernel, Duration.toInt_of_canonical h]
    push_cast
    rfl
  bytes tag m _ := m.data_encode tag
  squash key tag squash := by
    rw [Squash.exists_verified_iff, Squash.verifies_iff]
  locked key tag locked := by
    rw [Locked.exists_verified_iff, Locked.verifies_iff]
    exact Kernel.Conformance.verify_locked.symm
  unlocked key tag unlocked := by
    rw [Unlocked.exists_verified_iff, Unlocked.verifies_iff, Option.isSome_iff_exists]
    have hlen : (Unlocked.toKernel unlocked).body.latch.length = 32 :=
      (Latch.bytes unlocked.body.latch).2
    constructor
    · exact fun h => ⟨_, Kernel.unlocked_eq_some.mpr ⟨⟨h, hlen⟩, rfl⟩⟩
    · rintro ⟨r, hr⟩
      exact (Kernel.unlocked_eq_some.mp hr).1.1
  unlockedCheque key tag unlocked := by
    have hlen : (Unlocked.toKernel unlocked).body.latch.length = 32 :=
      (Latch.bytes unlocked.body.latch).2
    rw [Unlocked.exists_verified_iff, Unlocked.verifies_iff]
    exact (and_iff_right hlen).symm.trans Kernel.Conformance.verify_unlocked.symm
  injective _ _ _ _ h h' := Message.eq_of_data h h'

end Data

end Konduit
