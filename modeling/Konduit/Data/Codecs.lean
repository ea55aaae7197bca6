import Konduit.Data.OnChain
import Konduit.Lib.Constrs

/-!
# The formats on chain as codecs

Each type of the datum and of the redeemer is given its format as a codec of the library, in the
order of the code's readers.  The codec reads a stream and data as the code does (`Implements`), so
that what holds of codecs holds of the code.
-/

open Lib Lib.Plutus

namespace Konduit.Data

variable {ok : List Cbor.Token → Prop} {α : Type} [OnChain α]

/-- The codec reads a stream and data as the code does. -/
structure Implements (codec : Codec ok α) : Prop where
  read_eq : codec.read = OnChain.decode
  ofData_eq : codec.ofData = OnChain.ofData

variable [IsInput ok]

lemma Implements.list {codec : Codec ok α} (h : Implements codec) : Implements codec.list where
  read_eq := by
    rw [Codec.list_read, h.read_eq]
    rfl
  ofData_eq := by
    funext d
    cases d with
    | list ds =>
      show ds.mapM codec.ofData = ds.mapM OnChain.ofData
      rw [h.ofData_eq]
    | _ => rfl

/-! ### Integers and byte strings -/

/-- An integer is read as a word when it is one, and when it is `-1` as a big integer. -/
lemma isSome_wordOfInteger (n : ℤ) (big : Bool) :
    (wordOfInteger n big).isSome ↔ (0 ≤ n ∧ n < 2 ^ 64) ∨ (n = -1 ∧ big = true) := by
  rw [wordOfInteger_eq, u64OfInt]
  split_ifs with h hword hword
  · simp [h]
  · simp at hword
  · exact iff_of_true rfl (Or.inl hword)
  · exact iff_of_false (by simp) (not_or.mpr ⟨hword, h⟩)

lemma wordOfInteger_natCast (n : ℕ) (hn : n < 2 ^ 64) :
    wordOfInteger n false = some (UInt64.ofNat n) := by
  rw [wordOfInteger_eq, if_neg (by simp), u64OfInt, if_pos (by omega), Int.toNat_natCast]

/-- How the code reads integers of data. -/
def wordReader : Codec.WordReader where
  ofInteger := wordOfInteger
  Reads n big := (0 ≤ n ∧ n < 2 ^ 64) ∨ (n = -1 ∧ big = true)
  isSome_ofInteger := isSome_wordOfInteger
  ofInteger_natCast := wordOfInteger_natCast

/-- The codec of a word. -/
def wordCodec : Codec ok UInt64 := .word wordReader

@[simp] lemma wordCodec_read : (wordCodec : Codec ok UInt64).read = Cbor.readUInt := rfl

@[simp] lemma wordCodec_ofData : (wordCodec : Codec ok UInt64).ofData = wordOfData := by
  funext d
  cases d <;> rfl

lemma implements_word : Implements (wordCodec : Codec ok UInt64) := ⟨rfl, wordCodec_ofData⟩

lemma isSome_ofBytes (n : ℕ) (b : Bytes) : (BytesN.ofBytes n b).isSome ↔ b.length = n := by
  rw [BytesN.ofBytes]
  split_ifs with h <;> simp [h]

/-- A byte string of a length. -/
def bytesN (codec : Codec ok Bytes) (n : ℕ) : Codec ok (BytesN n) :=
  codec.filterMap (BytesN.ofBytes n) (fun b => b.length = n) (isSome_ofBytes n)

@[simp] lemma bytesN_chunked_ofData (n : ℕ) (d : Data) :
    (bytesN (.chunked : Codec ok Bytes) n).ofData d = bytesOfData n d := by
  cases d <;> rfl

@[simp] lemma bytesN_bytes_ofData (n : ℕ) (d : Data) :
    (bytesN (.bytes : Codec ok Bytes) n).ofData d = bytesOfData n d := by
  cases d <;> rfl

/-- A duration, as its milliseconds. -/
def Duration.codec : Codec ok Duration := wordCodec.map fromMillis

lemma Duration.implements : Implements (codec : Codec ok Duration) where
  read_eq := rfl
  ofData_eq := by
    funext d
    simp [codec, OnChain.ofData, ofData, Option.map_eq_bind]

/-- A signature, as a byte string. -/
def Signature.codec : Codec ok Signature := (bytesN .chunked 64).map mk

lemma Signature.implements : Implements (codec : Codec ok Signature) where
  read_eq := by
    funext b
    simp [codec, OnChain.decode, decode, bytesN, Option.map_eq_bind, Option.bind_assoc]
  ofData_eq := by
    funext d
    simp [codec, OnChain.ofData, Option.map_eq_bind]

/-- A key, as a byte string. -/
def VerifyingKey.codec : Codec ok VerifyingKey := (bytesN .chunked 32).map mk

lemma VerifyingKey.implements : Implements (codec : Codec ok VerifyingKey) where
  read_eq := by
    funext b
    simp [codec, OnChain.decode, decode, bytesN, Option.map_eq_bind, Option.bind_assoc]
  ofData_eq := by
    funext d
    simp [codec, OnChain.ofData, Option.map_eq_bind]

/-- A tag, as a byte string. -/
def Tag.codec : Codec ok Tag := Codec.chunked.map mk

lemma Tag.implements : Implements (codec : Codec ok Tag) where
  read_eq := rfl
  ofData_eq := by
    funext d
    cases d <;> rfl

/-- An instruction, as a byte string: empty, or a secret. -/
def Unpend.codec : Codec ok Unpend := Codec.bytes.map ofBytes

lemma Unpend.implements : Implements (codec : Codec ok Unpend) where
  read_eq := rfl
  ofData_eq := by
    funext d
    cases d <;> rfl

namespace Latch

variable {T : Type} [Latch T]

/-- A lock or a secret, as a byte string. -/
def codec : Codec ok T := (bytesN .bytes 32).map Latch.ofBytes

lemma codec_read : (codec : Codec ok T).read = decode := by
  funext b
  simp [codec, decode, bytesN, Option.map_eq_bind, Option.bind_assoc]

lemma codec_ofData : (codec : Codec ok T).ofData = Latch.ofData := by
  funext d
  simp [codec, Latch.ofData, Option.map_eq_bind]

end Latch

/-! ### Records -/

namespace Used

/-- The index and the amount. -/
def fields : Fields ok Used :=
  (Fields.cons wordCodec (.cons wordCodec .nil)).map fun r => ⟨r.1, r.2.1⟩

/-- A used cheque, as a record. -/
def codec : Codec ok Used := .record fields

lemma fields_read : (fields : Fields ok Used).read = decodeFields := by
  funext b
  simp [fields, decodeFields, Option.map_eq_bind, Option.bind_assoc]

lemma implements : Implements (codec : Codec ok Used) where
  read_eq := congrArg Cbor.readFramed fields_read
  ofData_eq := by
    funext d
    rcases d with _ | _ | ds | _ | _
    case list =>
      rcases ds with _ | ⟨a, _ | ⟨b, _ | ⟨c, ds⟩⟩⟩ <;>
        simp [codec, Codec.record, fields, OnChain.ofData, ofData, Option.bind_assoc]
    all_goals rfl

end Used

namespace Pending

/-- The amount, the timeout and the lock. -/
def fields : Fields ok Pending :=
  (Fields.cons wordCodec (.cons Duration.codec (.cons Latch.codec .nil))).map
    fun r => ⟨r.1, r.2.1, r.2.2.1⟩

/-- A pending cheque, as a record. -/
def codec : Codec ok Pending := .record fields

lemma fields_read : (fields : Fields ok Pending).read = decodeFields := by
  funext b
  simp [fields, decodeFields, Option.map_eq_bind, Option.bind_assoc, Duration.implements.read_eq,
    Latch.codec_read, OnChain.decode]

lemma implements : Implements (codec : Codec ok Pending) where
  read_eq := congrArg Cbor.readFramed fields_read
  ofData_eq := by
    funext d
    rcases d with _ | _ | ds | _ | _
    case list =>
      rcases ds with _ | ⟨a, _ | ⟨b, _ | ⟨c, _ | ⟨d, ds⟩⟩⟩⟩ <;>
        simp [codec, Codec.record, fields, OnChain.ofData, ofData, Option.bind_assoc,
          Duration.implements.ofData_eq, Latch.codec_ofData]
    all_goals rfl

end Pending

namespace Constants

/-- The tag, the two keys and the close period. -/
def fields : Fields ok Constants :=
  (Fields.cons Tag.codec (.cons VerifyingKey.codec (.cons VerifyingKey.codec
    (.cons Duration.codec .nil)))).map fun r => ⟨r.1, r.2.1, r.2.2.1, r.2.2.2.1⟩

/-- The constants of a channel, as a record. -/
def codec : Codec ok Constants := .record fields

lemma fields_read : (fields : Fields ok Constants).read = decodeFields := by
  funext b
  simp [fields, decodeFields, Option.map_eq_bind, Option.bind_assoc, Tag.implements.read_eq,
    VerifyingKey.implements.read_eq, Duration.implements.read_eq, OnChain.decode]

lemma implements : Implements (codec : Codec ok Constants) where
  read_eq := congrArg Cbor.readFramed fields_read
  ofData_eq := by
    funext d
    rcases d with _ | _ | ds | _ | _
    case list =>
      rcases ds with _ | ⟨a, _ | ⟨b, _ | ⟨c, _ | ⟨d, _ | ⟨e, ds⟩⟩⟩⟩⟩ <;>
        simp [codec, Codec.record, fields, OnChain.ofData, ofData, Option.map_eq_bind,
          Option.bind_assoc, Tag.implements.ofData_eq, VerifyingKey.implements.ofData_eq,
          Duration.implements.ofData_eq]
    all_goals rfl

end Constants

namespace Stage

/-- What was subbed, and the cheques that were used. -/
def openedFields : Fields ok Stage :=
  (Fields.cons wordCodec (.cons (.list Used.codec) .nil)).map fun r => opened r.1 r.2.1

/-- The same, and the time to elapse from. -/
def closedFields : Fields ok Stage :=
  (Fields.cons wordCodec (.cons (.list Used.codec) (.cons Duration.codec .nil))).map
    fun r => closed r.1 r.2.1 r.2.2.1

/-- What is pending in total, and the pendings. -/
def respondedFields : Fields ok Stage :=
  (Fields.cons wordCodec (.cons (.list Pending.codec) .nil)).map fun r => responded r.1 r.2.1

/-- The bodies of the three constructors. -/
def bodies : List (Body ok Stage) :=
  [.ofFields openedFields, .ofFields closedFields, .ofFields respondedFields]

/-- A stage, as one of three constructors. -/
def codec : Codec ok Stage := .ofConstrs bodies (by simp [bodies])

lemma openedFields_read : (openedFields : Fields ok Stage).read = decodeOpened := by
  funext b
  simp [openedFields, decodeOpened, Option.map_eq_bind, Option.bind_assoc,
    Used.implements.list.read_eq]

lemma closedFields_read : (closedFields : Fields ok Stage).read = decodeClosed := by
  funext b
  have hduration : (Duration.codec : Codec ok Duration).read = Duration.decode := rfl
  simp [closedFields, decodeClosed, Option.map_eq_bind, Option.bind_assoc,
    Used.implements.list.read_eq, hduration]

lemma respondedFields_read : (respondedFields : Fields ok Stage).read = decodeResponded := by
  funext b
  simp [respondedFields, decodeResponded, Option.map_eq_bind, Option.bind_assoc,
    Pending.implements.list.read_eq]

lemma implements : Implements (codec : Codec ok Stage) where
  read_eq := by
    funext b
    show readConstr Body.read bodies b = decode b
    rw [readConstr, decode]
    refine congrArg _ (funext fun r => ?_)
    obtain ⟨n, b⟩ := r
    dsimp only
    symm
    split
    · exact congrFun (congrArg Cbor.readFramed openedFields_read.symm) b
    · exact congrFun (congrArg Cbor.readFramed closedFields_read.symm) b
    · exact congrFun (congrArg Cbor.readFramed respondedFields_read.symm) b
    · next h₁ h₂ h₃ =>
      have hn : ¬n = 121 ∧ ¬n = 122 ∧ ¬n = 123 := ⟨h₁, h₂, h₃⟩
      rw [alt_eq_none]
      · rfl
      · simp only [bodies, List.length_cons, List.length_nil]
        omega
  ofData_eq := by
    have huseds : (Codec.list Used.codec : Codec ok (List Used)).ofData = OnChain.ofData :=
      Used.implements.list.ofData_eq
    have hpendings : (Codec.list Pending.codec : Codec ok (List Pending)).ofData = OnChain.ofData :=
      Pending.implements.list.ofData_eq
    have hduration : (Duration.codec : Codec ok Duration).ofData = Duration.ofData :=
      Duration.implements.ofData_eq
    funext d
    rcases d with ⟨i, ds⟩ | _ | ds | _ | _
    case constr =>
      show (bodies[i]?.bind fun body => body.ofItems ds) = ofData (.constr i ds)
      rcases i with _ | _ | _ | i
      · rcases ds with _ | ⟨a, _ | ⟨b, _ | ⟨c, ds⟩⟩⟩ <;>
          simp [bodies, openedFields, ofData, huseds, Option.bind_assoc]
        exact Option.bind_comm _ _
      · rcases ds with _ | ⟨a, _ | ⟨b, _ | ⟨c, _ | ⟨d, ds⟩⟩⟩⟩ <;>
          simp [bodies, closedFields, ofData, huseds, hduration, Option.bind_assoc]
        exact Option.bind_comm _ _
      · rcases ds with _ | ⟨a, _ | ⟨b, _ | ⟨c, ds⟩⟩⟩ <;>
          simp [bodies, respondedFields, ofData, hpendings, Option.bind_assoc]
        exact Option.bind_comm _ _
      · rfl
    all_goals rfl

end Stage

namespace Datum

/-- The hash of the script, the constants and the stage. -/
def fields : Fields ok Datum :=
  (Fields.cons (bytesN .bytes 28) (.cons Constants.codec (.cons Stage.codec .nil))).map
    fun r => ⟨r.1.1, r.2.1, r.2.2.1⟩

/-- A datum, as a record. -/
def codec : Codec ok Datum := .record fields

lemma fields_read : (fields : Fields ok Datum).read = decodeFields := by
  funext b
  simp [fields, decodeFields, bytesN, Option.map_eq_bind, Option.bind_assoc,
    Constants.implements.read_eq, Stage.implements.read_eq, OnChain.decode]

lemma implements : Implements (codec : Codec ok Datum) where
  read_eq := congrArg Cbor.readFramed fields_read
  ofData_eq := by
    funext d
    rcases d with _ | _ | ds | _ | _
    case list =>
      rcases ds with _ | ⟨a, _ | ⟨b, _ | ⟨c, _ | ⟨d, ds⟩⟩⟩⟩ <;>
        simp [codec, Codec.record, fields, OnChain.ofData, ofData, Option.bind_assoc,
          Constants.implements.ofData_eq, Stage.implements.ofData_eq]
    all_goals rfl

end Datum

/-! ### Evidence -/

lemma Indexes.isSome_new (items : List UInt64) :
    (new items).toOption.isSome ↔ (⟨items⟩ : Indexes).WellFormed := by
  constructor
  · intro h
    obtain ⟨self, hnew⟩ := Option.isSome_iff_exists.mp h
    obtain ⟨rfl, hself⟩ := new_eq_ok.mp (Result.toOption_eq_some.mp hnew)
    exact hself
  · intro h
    rw [new_eq_ok.mpr ⟨rfl, h⟩]
    rfl

/-- Indexes, as a list that has to increase and to be short. -/
def Indexes.codec : Codec ok Indexes :=
  (Codec.list wordCodec).filterMap (fun items => (new items).toOption) _ isSome_new

namespace SquashBody

lemma isSome_new (body : SquashBody) :
    (new body.amount body.index body.exclude).toOption.isSome ↔
      verifyNew body.index body.exclude = true := by
  rw [new]
  split_ifs with h <;> simp [h, Except.toOption]

/-- The amount, the index and the exclude list. -/
def fields : Fields ok SquashBody :=
  (Fields.cons wordCodec (.cons wordCodec (.cons Indexes.codec .nil))).map
    fun r => ⟨r.1, r.2.1, r.2.2.1⟩

/-- The body of a squash, as a record that has to be well-formed. -/
def codec : Codec ok SquashBody :=
  (Codec.record fields).filterMap
    (fun body => (new body.amount body.index body.exclude).toOption) _ isSome_new

lemma fields_read : (fields : Fields ok SquashBody).read = decodeFields := by
  have hitems : (Codec.list wordCodec : Codec ok (List UInt64)).read =
      Cbor.readItems Cbor.readUInt :=
    implements_word.list.read_eq
  funext b
  simp [fields, decodeFields, Indexes.codec, Indexes.decode, hitems, Option.map_eq_bind,
    Option.bind_assoc]

lemma implements : Implements (codec : Codec ok SquashBody) where
  read_eq := by
    funext b
    show ((Cbor.readFramed fields.read b).bind _) = decode b
    rw [fields_read]
    simp [decode, Option.map_eq_bind]
  ofData_eq := by
    have hitems : (Codec.list wordCodec : Codec ok (List UInt64)).ofData = OnChain.ofData :=
      implements_word.list.ofData_eq
    funext d
    rcases d with _ | _ | ds | _ | _
    case list =>
      rcases ds with _ | ⟨a, _ | ⟨b, _ | ⟨c, _ | ⟨d, ds⟩⟩⟩⟩ <;>
        simp [codec, Codec.record, fields, Indexes.codec, OnChain.ofData, ofData, hitems,
          Option.bind_assoc]
    all_goals rfl

end SquashBody

namespace Squash

/-- The body and the signature. -/
def fields : Fields ok (Squash .unverified) :=
  (Fields.cons SquashBody.codec (.cons Signature.codec .nil)).map fun r => ⟨r.1, r.2.1⟩

/-- A squash, as a record. -/
def codec : Codec ok (Squash .unverified) := .record fields

lemma fields_read : (fields : Fields ok (Squash .unverified)).read = decodeFields := by
  funext b
  simp [fields, decodeFields, Option.map_eq_bind, Option.bind_assoc,
    SquashBody.implements.read_eq, Signature.implements.read_eq, OnChain.decode]

lemma implements : Implements (codec : Codec ok (Squash .unverified)) where
  read_eq := congrArg Cbor.readFramed fields_read
  ofData_eq := by
    funext d
    rcases d with _ | _ | ds | _ | _
    case list =>
      rcases ds with _ | ⟨a, _ | ⟨b, _ | ⟨c, ds⟩⟩⟩ <;>
        simp [codec, Codec.record, fields, OnChain.ofData, ofData, Option.map_eq_bind,
          Option.bind_assoc, SquashBody.implements.ofData_eq, Signature.implements.ofData_eq]
      exact Option.bind_comm _ _
    all_goals rfl

end Squash

section Cheques

variable {T : Type} [Latch T]

namespace ChequeBody

/-- The index, the amount, the timeout and the lock or the secret. -/
def fields : Fields ok (ChequeBody T) :=
  (Fields.cons wordCodec (.cons wordCodec (.cons Duration.codec (.cons Latch.codec .nil)))).map
    fun r => ⟨r.1, r.2.1, r.2.2.1, r.2.2.2.1⟩

/-- The body of a cheque, as a record. -/
def codec : Codec ok (ChequeBody T) := .record fields

lemma fields_read : (fields : Fields ok (ChequeBody T)).read = decodeFields := by
  funext b
  simp [fields, decodeFields, Option.map_eq_bind, Option.bind_assoc, Duration.implements.read_eq,
    Latch.codec_read, OnChain.decode]

lemma implements : Implements (codec : Codec ok (ChequeBody T)) where
  read_eq := congrArg Cbor.readFramed fields_read
  ofData_eq := by
    funext d
    rcases d with _ | _ | ds | _ | _
    case list =>
      rcases ds with _ | ⟨a, _ | ⟨b, _ | ⟨c, _ | ⟨d, _ | ⟨e, ds⟩⟩⟩⟩⟩ <;>
        simp [codec, Codec.record, fields, OnChain.ofData, ofData, Option.map_eq_bind,
          Option.bind_assoc, Duration.implements.ofData_eq, Duration.ofData, Latch.codec_ofData]
    all_goals rfl

end ChequeBody

namespace ChequeSigned

/-- The body and the signature. -/
def fields : Fields ok (ChequeSigned T .unverified) :=
  (Fields.cons ChequeBody.codec (.cons Signature.codec .nil)).map fun r => ⟨r.1, r.2.1⟩

/-- A signed cheque, as a record. -/
def codec : Codec ok (ChequeSigned T .unverified) := .record fields

lemma fields_read : (fields : Fields ok (ChequeSigned T .unverified)).read = decodeFields := by
  funext b
  simp [fields, decodeFields, Option.map_eq_bind, Option.bind_assoc,
    ChequeBody.implements.read_eq, Signature.implements.read_eq, OnChain.decode]

lemma fields_ofItems : (fields : Fields ok (ChequeSigned T .unverified)).ofItems = ofFields := by
  funext ds
  rcases ds with _ | ⟨a, _ | ⟨b, _ | ⟨c, ds⟩⟩⟩ <;>
    simp [fields, OnChain.ofData, ofFields, Option.map_eq_bind, Option.bind_assoc,
      ChequeBody.implements.ofData_eq, Signature.implements.ofData_eq]
  exact Option.bind_comm _ _

lemma implements : Implements (codec : Codec ok (ChequeSigned T .unverified)) where
  read_eq := congrArg Cbor.readFramed fields_read
  ofData_eq := by
    funext d
    rcases d with _ | _ | ds | _ | _
    case list => exact congrFun fields_ofItems ds
    all_goals rfl

end ChequeSigned

end Cheques

namespace Cheque

/-- The bodies of the two constructors. -/
def bodies : List (Body ok (Cheque .unverified)) :=
  [.ofFields (ChequeSigned.fields.map unlocked), .ofFields (ChequeSigned.fields.map locked)]

/-- A cheque, as one of two constructors. -/
def codec : Codec ok (Cheque .unverified) := .ofConstrs bodies (by simp [bodies])

lemma readFramed_fields {T : Type} [Latch T] (f : ChequeSigned T .unverified → Cheque .unverified)
    (b : Bytes) :
    Cbor.readFramed (ChequeSigned.fields.map f : Fields ok (Cheque .unverified)).read b =
      (ChequeSigned.decode b).bind fun r => some (f r.1, r.2) := by
  have hread : (ChequeSigned.fields : Fields ok (ChequeSigned T .unverified)).read =
      ChequeSigned.decodeFields := ChequeSigned.fields_read
  have hfields : (ChequeSigned.fields.map f : Fields ok (Cheque .unverified)).read =
      fun b => (ChequeSigned.decodeFields b).map fun r => (f r.1, r.2) := by
    rw [← hread]
    rfl
  rw [hfields, Cbor.readFramed_map, Option.map_eq_bind]
  rfl

lemma implements : Implements (codec : Codec ok (Cheque .unverified)) where
  read_eq := by
    funext b
    show readConstr Body.read bodies b = decode b
    rw [readConstr, decode]
    refine congrArg _ (funext fun r => ?_)
    obtain ⟨n, b⟩ := r
    dsimp only
    symm
    split
    · exact (readFramed_fields unlocked b).symm
    · exact (readFramed_fields locked b).symm
    · next h₁ h₂ =>
      have hn : ¬n = 121 ∧ ¬n = 122 := ⟨h₁, h₂⟩
      rw [alt_eq_none]
      · rfl
      · simp only [bodies, List.length_cons, List.length_nil]
        omega
  ofData_eq := by
    funext d
    rcases d with ⟨i, ds⟩ | _ | ds | _ | _
    case constr =>
      show (bodies[i]?.bind fun body => body.ofItems ds) = ofData (.constr i ds)
      rcases i with _ | _ | i
      · simp [bodies, ofData, ChequeSigned.fields_ofItems]
      · simp [bodies, ofData, ChequeSigned.fields_ofItems]
      · rfl
    all_goals rfl

end Cheque

/-! ### Steps and redeemers -/

lemma nullary_read {α : Type} (x : α) : (.nullary x : Alt ok α).read = readNullary x := by
  funext b
  simp [Alt.nullary, readNullary, Option.map_eq_bind]

namespace Eol

/-- The two constructors, without fields. -/
def alts : List (Alt ok Eol) := [.nullary .end, .nullary .elapse]

/-- A step that ends a channel. -/
def openCodec : OpenCodec ok Eol := .ofConstrs alts (by simp [alts])

lemma openCodec_read : (openCodec : OpenCodec ok Eol).read = decode := by
  funext b
  show readConstr Alt.read alts b = decode b
  rw [readConstr, decode]
  refine congrArg _ (funext fun r => ?_)
  obtain ⟨n, b⟩ := r
  dsimp only
  symm
  split
  · exact (congrFun (nullary_read _) b).symm
  · exact (congrFun (nullary_read _) b).symm
  · next h₁ h₂ =>
    have hn : ¬n = 121 ∧ ¬n = 122 := ⟨h₁, h₂⟩
    rw [alt_eq_none]
    · rfl
    · simp only [alts, List.length_cons, List.length_nil]
      omega

lemma openCodec_ofData : (openCodec : OpenCodec ok Eol).ofData = ofData := by
  funext d
  rcases d with ⟨_ | _ | i, ds⟩ | _ | _ | _ | _ <;> rfl

end Eol

namespace Cont

/-- A squash and unlocked cheques. -/
def subFields : Fields ok Cont :=
  (Fields.cons Squash.codec (.cons (.list ChequeSigned.codec) .nil)).map fun r => sub r.1 r.2.1

/-- A squash and cheques. -/
def respondFields : Fields ok Cont :=
  (Fields.cons Squash.codec (.cons (.list Cheque.codec) .nil)).map fun r => respond r.1 r.2.1

/-- An instruction for each pending. -/
def unlockFields : Fields ok Cont := (Fields.cons (.list Unpend.codec) .nil).map fun r => unlock r.1

/-- An instruction for each pending. -/
def expireFields : Fields ok Cont := (Fields.cons (.list Unpend.codec) .nil).map fun r => expire r.1

/-- The six constructors, two of them without fields. -/
def alts : List (Alt ok Cont) :=
  [.nullary add, .ofBody (.ofFields subFields), .nullary close, .ofBody (.ofFields respondFields),
    .ofBody (.ofFields unlockFields), .ofBody (.ofFields expireFields)]

/-- A step that a channel goes on from. -/
def openCodec : OpenCodec ok Cont := .ofConstrs alts (by simp [alts])

lemma subFields_read : (subFields : Fields ok Cont).read = decodeSub := by
  funext b
  simp [subFields, decodeSub, Option.map_eq_bind, Option.bind_assoc, Squash.implements.read_eq,
    ChequeSigned.implements.list.read_eq]
  rfl

lemma respondFields_read : (respondFields : Fields ok Cont).read = decodeRespond := by
  funext b
  simp [respondFields, decodeRespond, Option.map_eq_bind, Option.bind_assoc,
    Squash.implements.read_eq, Cheque.implements.list.read_eq]
  rfl

lemma unlockFields_read : (unlockFields : Fields ok Cont).read = decodeUnlock := by
  funext b
  simp [unlockFields, decodeUnlock, Option.map_eq_bind, Option.bind_assoc,
    Unpend.implements.list.read_eq]

lemma expireFields_read : (expireFields : Fields ok Cont).read = decodeExpire := by
  funext b
  simp [expireFields, decodeExpire, Option.map_eq_bind, Option.bind_assoc,
    Unpend.implements.list.read_eq]

lemma openCodec_read : (openCodec : OpenCodec ok Cont).read = decode := by
  funext b
  show readConstr Alt.read alts b = decode b
  rw [readConstr, decode]
  refine congrArg _ (funext fun r => ?_)
  obtain ⟨n, b⟩ := r
  dsimp only
  symm
  split
  · exact (congrFun (nullary_read _) b).symm
  · exact congrFun (congrArg Cbor.readFramed subFields_read.symm) b
  · exact (congrFun (nullary_read _) b).symm
  · exact congrFun (congrArg Cbor.readFramed respondFields_read.symm) b
  · exact congrFun (congrArg Cbor.readFramed unlockFields_read.symm) b
  · exact congrFun (congrArg Cbor.readFramed expireFields_read.symm) b
  · next h₁ h₂ h₃ h₄ h₅ h₆ =>
    have hn : ¬n = 121 ∧ ¬n = 122 ∧ ¬n = 123 ∧ ¬n = 124 ∧ ¬n = 125 ∧ ¬n = 126 :=
      ⟨h₁, h₂, h₃, h₄, h₅, h₆⟩
    rw [alt_eq_none]
    · rfl
    · simp only [alts, List.length_cons, List.length_nil]
      omega

lemma openCodec_ofData : (openCodec : OpenCodec ok Cont).ofData = ofData := by
  have hsquash : (Squash.codec : Codec ok (Squash .unverified)).ofData = Squash.ofData :=
    Squash.implements.ofData_eq
  have hunlockeds :
      (Codec.list ChequeSigned.codec : Codec ok (List (Unlocked .unverified))).ofData =
        OnChain.ofData := ChequeSigned.implements.list.ofData_eq
  have hcheques : (Codec.list Cheque.codec : Codec ok (List (Cheque .unverified))).ofData =
      OnChain.ofData := Cheque.implements.list.ofData_eq
  have hunpends : (Codec.list Unpend.codec : Codec ok (List Unpend)).ofData = OnChain.ofData :=
    Unpend.implements.list.ofData_eq
  funext d
  rcases d with ⟨i, ds⟩ | _ | ds | _ | _
  case constr =>
    show (alts[i]?.bind fun alt => alt.ofFields ds) = ofData (.constr i ds)
    rcases i with _ | _ | _ | _ | _ | _ | i
    · rfl
    · rcases ds with _ | ⟨a, _ | ⟨b, _ | ⟨c, ds⟩⟩⟩ <;>
        simp [alts, Alt.ofBody, subFields, ofData, hsquash, hunlockeds, Option.bind_assoc]
    · rfl
    · rcases ds with _ | ⟨a, _ | ⟨b, _ | ⟨c, ds⟩⟩⟩ <;>
        simp [alts, Alt.ofBody, respondFields, ofData, hsquash, hcheques, Option.bind_assoc]
    · rcases ds with _ | ⟨a, _ | ⟨b, ds⟩⟩ <;>
        simp [alts, Alt.ofBody, unlockFields, ofData, hunpends, Option.map_eq_bind,
          Option.bind_assoc]
    · rcases ds with _ | ⟨a, _ | ⟨b, ds⟩⟩ <;>
        simp [alts, Alt.ofBody, expireFields, ofData, hunpends, Option.map_eq_bind,
          Option.bind_assoc]
    · rfl
  all_goals rfl

end Cont

namespace Step

/-- A step is a record of one field, which may have no fields of its own. -/
def opens : List (OpenCodec ok Step) := [Cont.openCodec.map cont, Eol.openCodec.map eol]

lemma readFramed_cont : Cbor.readFramed (Cont.openCodec.map cont : OpenCodec ok Step).read =
    Cbor.readFramed decodeCont := by
  have hread : (Cont.openCodec.map cont : OpenCodec ok Step).read = decodeCont := by
    funext b
    show ((Cont.openCodec : OpenCodec ok Cont).read b).map _ = _
    rw [Cont.openCodec_read, Option.map_eq_bind]
    rfl
  rw [hread]

lemma readFramed_eol : Cbor.readFramed (Eol.openCodec.map eol : OpenCodec ok Step).read =
    Cbor.readFramed decodeEol := by
  have hread : (Eol.openCodec.map eol : OpenCodec ok Step).read = decodeEol := by
    funext b
    show ((Eol.openCodec : OpenCodec ok Eol).read b).map _ = _
    rw [Eol.openCodec_read, Option.map_eq_bind]
    rfl
  rw [hread]

/-- The reader of a step, whatever is known of the input. -/
lemma readConstr_opens :
    readConstr (fun open' : OpenCodec ok Step => Cbor.readFramed open'.read) opens = decode := by
  funext b
  rw [readConstr, decode]
  refine congrArg _ (funext fun r => ?_)
  obtain ⟨n, b⟩ := r
  dsimp only
  symm
  split
  · exact (congrFun readFramed_cont b).symm
  · exact (congrFun readFramed_eol b).symm
  · next h₁ h₂ =>
    have hn : ¬n = 121 ∧ ¬n = 122 := ⟨h₁, h₂⟩
    rw [alt_eq_none]
    · rfl
    · simp only [opens, List.length_cons, List.length_nil]
      omega

lemma ofConstr_opens : ofConstr OpenCodec.ofField (opens : List (OpenCodec ok Step)) = ofData := by
  have hcont : (Cont.openCodec : OpenCodec ok Cont).ofData = Cont.ofData := Cont.openCodec_ofData
  have heol : (Eol.openCodec : OpenCodec ok Eol).ofData = Eol.ofData := Eol.openCodec_ofData
  funext d
  rcases d with ⟨i, ds⟩ | _ | ds | _ | _
  case constr =>
    rcases i with _ | _ | i
    · rcases ds with _ | ⟨a, _ | ⟨b, ds⟩⟩ <;>
        simp [ofConstr, opens, OpenCodec.ofField, OpenCodec.map, ofData, hcont]
    · rcases ds with _ | ⟨a, _ | ⟨b, ds⟩⟩ <;>
        simp [ofConstr, opens, OpenCodec.ofField, OpenCodec.map, ofData, heol]
    · rfl
  all_goals rfl

end Step

section NotBare

variable (hbare : ∀ {w n s}, ¬ok (.tag w n :: .beginArray :: .stop :: s))

namespace Step

/-- The codec of a step that is an item of a list, where no constructor is bare. -/
def codec : Codec ok Step := .ofConstrs (opens.map (Body.ofOpen hbare)) (by simp [opens])

lemma implements : Implements (codec hbare) where
  read_eq := (readConstr_map _ _).trans readConstr_opens
  ofData_eq := (ofConstr_map _ _).trans ofConstr_opens

end Step

namespace Redeemer

/-- The steps. -/
def mainFields : Fields ok Redeemer :=
  (Fields.cons (.list (Step.codec hbare)) .nil).map fun r => main r.1

/-- The three constructors, two of them without fields. -/
def alts : List (Alt ok Redeemer) :=
  [.nullary defer, .ofBody (.ofFields (mainFields hbare)), .nullary .mutual]

end Redeemer

end NotBare

end Konduit.Data
