import Konduit.Cardano.PlutusData
import Konduit.Data.Datum
import Konduit.Data.Signed

/-!
# Writing and reading what goes on chain

Each type of the datum and of the redeemer is written and read twice, by hand as CBOR and by way
of Plutus data.  The two agree on what they write, and each reads back what was written, for
values whose squashes are well-formed and whose times are in whole milliseconds
(`onChain_roundTrips`).
-/

open Lib

namespace Konduit.Data

/-- How the values of a type are written and read: as CBOR, and as Plutus data. -/
class OnChain (α : Type) where
  encode : α → Bytes
  decode : Bytes → Option (α × Bytes)
  toData : α → Plutus.Data
  ofData : Plutus.Data → Option α

open OnChain

/-- The value is written the same in both ways, and read back in both ways. -/
structure RoundTrips {α : Type} [OnChain α] (x : α) : Prop where
  encode_eq : encode x = Plutus.serialise (toData x)
  decode_encode : ∀ b, decode (encode x ++ b) = some (x, b)
  ofData_toData : ofData (toData x) = some x

/-! ### Integers and byte strings -/

/-- The word that an integer is, if it fits. -/
def u64OfInt (n : ℤ) : Option UInt64 :=
  if 0 ≤ n ∧ n < 2 ^ 64 then some (UInt64.ofNat n.toNat) else none

/-- The word that the library reads an integer of the data as. -/
def wordOfInteger (n : ℤ) (big : Bool) : Option UInt64 :=
  (Cardano.PlutusData.bigInt (.ofInteger n big)).asInteger u64OfInt

/-- A word is read of what is one, and `0` of `-1` as a big integer. -/
lemma wordOfInteger_eq (n : ℤ) (big : Bool) :
    wordOfInteger n big = u64OfInt (if n = -1 ∧ big = true then 0 else n) := by
  rw [wordOfInteger, Cardano.PlutusData.asInteger, Cardano.PlutusData.fromPallasBigint_ofInteger]
  by_cases h : n = -1 ∧ big = true
  · rw [if_pos h, if_pos ⟨by omega, Or.inl h.2⟩, h.1]
    rfl
  rw [if_neg h]
  split_ifs with hneg
  · -- neither is a word
    rw [u64OfInt, u64OfInt, if_neg (by grind), if_neg (by omega)]
  · rfl

@[simp] lemma u64OfInt_toNat (w : UInt64) : u64OfInt w.toNat = some w := by
  rw [u64OfInt, if_pos ⟨by omega, by exact_mod_cast w.toNat_lt⟩, Int.toNat_natCast,
    UInt64.ofNat_toNat]

lemma toNat_of_u64OfInt {n : ℤ} {w : UInt64} (h : u64OfInt n = some w) : (w.toNat : ℤ) = n := by
  rw [u64OfInt] at h
  split_ifs at h with hn
  obtain rfl := Option.some.inj h
  rw [UInt64.toNat_ofNat_of_lt' (by norm_num; omega)]
  omega

/-- An integer of the data, when it is read as a word. -/
def wordOfData : Plutus.Data → Option UInt64
  | .integer n big => wordOfInteger n big
  | _ => none

/-- A byte string of the data, when it has the length. -/
def bytesOfData (n : ℕ) : Plutus.Data → Option (BytesN n)
  | .bytes b => BytesN.ofBytes n b
  | _ => none

instance : OnChain UInt64 := ⟨Cbor.uint, Cbor.readUInt, fun n => .int n.toNat, wordOfData⟩

/-- The duration that data denotes, in milliseconds. -/
def Duration.ofData (data : Plutus.Data) : Option Duration :=
  (wordOfData data).map Duration.fromMillis

instance : OnChain Duration :=
  ⟨Duration.encode, Duration.decode, fun d => .int d.toInt, Duration.ofData⟩

/-- The lock or the secret that data denotes. -/
def Latch.ofData {T : Type} [Latch T] (data : Plutus.Data) : Option T :=
  (bytesOfData 32 data).map Latch.ofBytes

instance : OnChain Signature where
  encode := Signature.encode
  decode := Signature.decode
  toData signature := .bytes signature.bytes.1
  ofData data := (bytesOfData 64 data).map Signature.mk

instance : OnChain VerifyingKey where
  encode := VerifyingKey.encode
  decode := VerifyingKey.decode
  toData key := .bytes key.bytes.1
  ofData data := (bytesOfData 32 data).map VerifyingKey.mk

/-- The tag that data denotes. -/
def Tag.ofData : Plutus.Data → Option Tag
  | .bytes b => some ⟨b⟩
  | _ => none

instance : OnChain Tag := ⟨Tag.encode, Tag.decode, fun tag => .bytes tag.bytes, Tag.ofData⟩

namespace Unpend

/-- An instruction in CBOR: nothing, a byte, or a secret. -/
def encode : Unpend → Bytes
  | .continue => Cbor.bytes []
  | expire => Cbor.bytes [0]
  | unlock secret => Cbor.bytes secret.1

/-- Any string that is neither empty nor a secret expires. -/
def ofBytes (raw : Bytes) : Unpend :=
  if raw.length = 0 then .continue
  else if h : raw.length = 32 then unlock ⟨raw, h⟩
  else expire

/-- An instruction in CBOR, from a string in one piece. -/
def decode (b : Bytes) : Option (Unpend × Bytes) := do
  let (raw, b) ← Cbor.readBytes b
  return (ofBytes raw, b)

/-- The instruction that data denotes. -/
def ofData : Plutus.Data → Option Unpend
  | .bytes b => some (ofBytes b)
  | _ => none

instance : OnChain Unpend := ⟨encode, decode, fun unpend => .bytes unpend.toKernel, ofData⟩

end Unpend

/-! ### Lists and records -/

/-- A list, empty or not, as on chain. -/
instance {α : Type} [OnChain α] : OnChain (List α) where
  encode := Cbor.list encode
  decode := Cbor.readItems decode
  toData items := .list (items.map toData)
  ofData
    | .list items => items.mapM ofData
    | _ => none

/-- The used cheque that data denotes. -/
def Used.ofData : Plutus.Data → Option Used
  | .list [a, b] => do
    let index ← wordOfData a
    let amount ← wordOfData b
    return ⟨index, amount⟩
  | _ => none

instance : OnChain Used := ⟨Used.encode, Used.decode, Used.toData, Used.ofData⟩

namespace Pending

/-- A pending cheque in CBOR, an array without a length. -/
def encode (self : Pending) : Bytes :=
  Cbor.framed (Cbor.uint self.amount ++ self.timeout.encode ++ Latch.encode self.lock)

/-- The fields of a pending cheque, in order. -/
def decodeFields (b : Bytes) : Option (Pending × Bytes) := do
  let (amount, b) ← Cbor.readUInt b
  let (timeout, b) ← Duration.decode b
  let (lock, b) ← Latch.decode b
  return (⟨amount, timeout, lock⟩, b)

/-- A pending cheque in CBOR. -/
def decode : Bytes → Option (Pending × Bytes) := Cbor.readFramed decodeFields

/-- The pending cheque that data denotes. -/
def ofData : Plutus.Data → Option Pending
  | .list [a, b, c] => do
    let amount ← wordOfData a
    let timeout ← Duration.ofData b
    let lock ← Latch.ofData c
    return ⟨amount, timeout, lock⟩
  | _ => none

instance : OnChain Pending := ⟨encode, decode, toData, ofData⟩

end Pending

/-- The fields of a constructor of the code, tagged. -/
def constr (i : ℕ) (fields : Bytes) : Bytes := Cbor.tag (121 + i) ++ Cbor.framed fields

/-- A constructor of the code without fields. -/
def nullary (i : ℕ) : Bytes := Cbor.tag (121 + i) ++ Cbor.array 0

/-- Read a constructor without fields; what its array holds is not looked at. -/
def readNullary {α : Type} (x : α) (b : Bytes) : Option (α × Bytes) := do
  let (_, b) ← Cbor.readArray b
  return (x, b)

namespace Stage

/-- A stage in CBOR, a constructor for each. -/
def encode : Stage → Bytes
  | opened subbed useds => constr 0 (Cbor.uint subbed ++ OnChain.encode useds)
  | closed subbed useds elapseAt =>
    constr 1 (Cbor.uint subbed ++ OnChain.encode useds ++ elapseAt.encode)
  | responded pendingsAmount pendings =>
    constr 2 (Cbor.uint pendingsAmount ++ OnChain.encode pendings)

/-- The fields of an opened stage. -/
def decodeOpened (b : Bytes) : Option (Stage × Bytes) := do
  let (subbed, b) ← Cbor.readUInt b
  let (useds, b) ← OnChain.decode b
  return (opened subbed useds, b)

/-- The fields of a closed stage. -/
def decodeClosed (b : Bytes) : Option (Stage × Bytes) := do
  let (subbed, b) ← Cbor.readUInt b
  let (useds, b) ← OnChain.decode b
  let (elapseAt, b) ← Duration.decode b
  return (closed subbed useds elapseAt, b)

/-- The fields of a responded stage. -/
def decodeResponded (b : Bytes) : Option (Stage × Bytes) := do
  let (pendingsAmount, b) ← Cbor.readUInt b
  let (pendings, b) ← OnChain.decode b
  return (responded pendingsAmount pendings, b)

/-- A stage in CBOR, by its tag. -/
def decode (b : Bytes) : Option (Stage × Bytes) := do
  let (tag, b) ← Cbor.readTag b
  match tag with
  | 121 => Cbor.readFramed decodeOpened b
  | 122 => Cbor.readFramed decodeClosed b
  | 123 => Cbor.readFramed decodeResponded b
  | _ => none

/-- The stage that data denotes. -/
def ofData : Plutus.Data → Option Stage
  | .constr 0 [a, b] => do
    let useds ← OnChain.ofData b
    let subbed ← wordOfData a
    return opened subbed useds
  | .constr 1 [a, b, c] => do
    let useds ← OnChain.ofData b
    let subbed ← wordOfData a
    let elapseAt ← Duration.ofData c
    return closed subbed useds elapseAt
  | .constr 2 [a, b] => do
    let pendings ← OnChain.ofData b
    let pendingsAmount ← wordOfData a
    return responded pendingsAmount pendings
  | _ => none

instance : OnChain Stage := ⟨encode, decode, toData, ofData⟩

end Stage

namespace Constants

/-- Constants in CBOR, an array without a length and without a tag. -/
def encode (self : Constants) : Bytes :=
  Cbor.framed (self.tag.encode ++ self.addVkey.encode ++ self.subVkey.encode ++
    self.closePeriod.encode)

/-- The fields of constants, in order. -/
def decodeFields (b : Bytes) : Option (Constants × Bytes) := do
  let (tag, b) ← Tag.decode b
  let (addVkey, b) ← VerifyingKey.decode b
  let (subVkey, b) ← VerifyingKey.decode b
  let (closePeriod, b) ← Duration.decode b
  return (⟨tag, addVkey, subVkey, closePeriod⟩, b)

/-- Constants in CBOR. -/
def decode : Bytes → Option (Constants × Bytes) := Cbor.readFramed decodeFields

/-- The constants that data denotes. -/
def ofData : Plutus.Data → Option Constants
  | .list [a, b, c, d] => do
    let tag ← Tag.ofData a
    let addVkey ← bytesOfData 32 b
    let subVkey ← bytesOfData 32 c
    let closePeriod ← Duration.ofData d
    return ⟨tag, ⟨addVkey⟩, ⟨subVkey⟩, closePeriod⟩
  | _ => none

instance : OnChain Constants := ⟨encode, decode, toData, ofData⟩

end Constants

namespace Datum

/-- A datum in CBOR, an array without a length. -/
def encode (self : Datum) : Bytes :=
  Cbor.framed (Cbor.bytes self.ownHash ++ self.constants.encode ++ self.stage.encode)

/-- The fields of a datum, in order. -/
def decodeFields (b : Bytes) : Option (Datum × Bytes) := do
  let (raw, b) ← Cbor.readBytes b
  let ownHash ← BytesN.ofBytes 28 raw
  let (constants, b) ← Constants.decode b
  let (stage, b) ← Stage.decode b
  return (⟨ownHash.1, constants, stage⟩, b)

/-- A datum in CBOR. -/
def decode : Bytes → Option (Datum × Bytes) := Cbor.readFramed decodeFields

/-- The datum that data denotes. -/
def ofData : Plutus.Data → Option Datum
  | .list [a, b, c] => do
    let ownHash ← bytesOfData 28 a
    let constants ← Constants.ofData b
    let stage ← Stage.ofData c
    return ⟨ownHash.1, constants, stage⟩
  | _ => none

instance : OnChain Datum := ⟨encode, decode, toData, ofData⟩

end Datum

/-! ### Evidence -/

namespace SquashBody

/-- The body of a squash as data. -/
def toData (self : SquashBody) : Plutus.Data :=
  .list [.int self.amount.toNat, .int self.index.toNat, OnChain.toData self.exclude.items]

/-- The body of a squash that data denotes, which has to be well-formed. -/
def ofData : Plutus.Data → Option SquashBody
  | .list [a, b, c] => do
    let amount ← wordOfData a
    let index ← wordOfData b
    let items ← OnChain.ofData c
    let exclude ← (Indexes.new items).toOption
    (new amount index exclude).toOption
  | _ => none

instance : OnChain SquashBody := ⟨encode, decode, toData, ofData⟩

end SquashBody

namespace Squash

/-- A squash as data. -/
def toData (self : Squash .unverified) : Plutus.Data :=
  .list [self.body.toData, .bytes self.signature.bytes.1]

/-- The squash that data denotes. -/
def ofData : Plutus.Data → Option (Squash .unverified)
  | .list [a, b] => do
    let signature ← bytesOfData 64 b
    let body ← SquashBody.ofData a
    return ⟨body, ⟨signature⟩⟩
  | _ => none

instance : OnChain (Squash .unverified) := ⟨encode, decode, toData, ofData⟩

end Squash

section Cheques

variable {T : Type} [Latch T]

namespace ChequeBody

/-- The body of a cheque as data. -/
def toData (self : ChequeBody T) : Plutus.Data :=
  .list [.int self.index.toNat, .int self.amount.toNat, .int self.timeout.toInt,
    .bytes (Latch.bytes self.latch).1]

/-- The body of a cheque that data denotes. -/
def ofData : Plutus.Data → Option (ChequeBody T)
  | .list [a, b, c, d] => do
    let index ← wordOfData a
    let amount ← wordOfData b
    let timeout ← wordOfData c
    let latch ← Latch.ofData d
    return ⟨index, amount, Duration.fromMillis timeout, latch⟩
  | _ => none

instance : OnChain (ChequeBody T) := ⟨encode, decode, toData, ofData⟩

end ChequeBody

namespace ChequeSigned

/-- The body and the signature. -/
def fieldsData (self : ChequeSigned T .unverified) : List Plutus.Data :=
  [self.body.toData, .bytes self.signature.bytes.1]

/-- The signed cheque that two data values denote. -/
def ofFields : List Plutus.Data → Option (ChequeSigned T .unverified)
  | [a, b] => do
    let signature ← bytesOfData 64 b
    let body ← ChequeBody.ofData a
    return ⟨body, ⟨signature⟩⟩
  | _ => none

/-- The signed cheque that data denotes. -/
def ofData : Plutus.Data → Option (ChequeSigned T .unverified)
  | .list fields => ofFields fields
  | _ => none

instance : OnChain (ChequeSigned T .unverified) :=
  ⟨encode, decode, fun self => .list self.fieldsData, ofData⟩

end ChequeSigned

end Cheques

namespace Cheque

/-- A cheque as data, a constructor for each of the two. -/
def toData : Cheque .unverified → Plutus.Data
  | unlocked cheque => .constr 0 cheque.fieldsData
  | locked cheque => .constr 1 cheque.fieldsData

/-- The cheque that data denotes. -/
def ofData : Plutus.Data → Option (Cheque .unverified)
  | .constr 0 fields => (ChequeSigned.ofFields fields).map unlocked
  | .constr 1 fields => (ChequeSigned.ofFields fields).map locked
  | _ => none

instance : OnChain (Cheque .unverified) := ⟨encode, decode, toData, ofData⟩

end Cheque

/-! ### Steps and redeemers -/

/-- A step that ends a channel. -/
abbrev Eol := Kernel.Eol

namespace Eol

/-- The step in CBOR. -/
def encode : Eol → Bytes
  | .end => nullary 0
  | .elapse => nullary 1

/-- The step in CBOR, by its tag. -/
def decode (b : Bytes) : Option (Eol × Bytes) := do
  let (tag, b) ← Cbor.readTag b
  match tag with
  | 121 => readNullary .end b
  | 122 => readNullary .elapse b
  | _ => none

/-- The step as data. -/
def toData : Eol → Plutus.Data
  | .end => .constr 0 []
  | .elapse => .constr 1 []

/-- The step that data denotes, whatever its fields are. -/
def ofData : Plutus.Data → Option Eol
  | .constr 0 _ => some .end
  | .constr 1 _ => some .elapse
  | _ => none

instance : OnChain Eol := ⟨encode, decode, toData, ofData⟩

end Eol

namespace Cont

/-- The step in CBOR. -/
def encode : Cont → Bytes
  | add => nullary 0
  | sub squash unlockeds => constr 1 (squash.encode ++ OnChain.encode unlockeds)
  | close => nullary 2
  | respond squash cheques => constr 3 (squash.encode ++ OnChain.encode cheques)
  | unlock unpends => constr 4 (OnChain.encode unpends)
  | expire unpends => constr 5 (OnChain.encode unpends)

/-- The fields of a sub. -/
def decodeSub (b : Bytes) : Option (Cont × Bytes) := do
  let (squash, b) ← Squash.decode b
  let (unlockeds, b) ← OnChain.decode b
  return (sub squash unlockeds, b)

/-- The fields of a respond. -/
def decodeRespond (b : Bytes) : Option (Cont × Bytes) := do
  let (squash, b) ← Squash.decode b
  let (cheques, b) ← OnChain.decode b
  return (respond squash cheques, b)

/-- The field of an unlock. -/
def decodeUnlock (b : Bytes) : Option (Cont × Bytes) := do
  let (unpends, b) ← OnChain.decode b
  return (unlock unpends, b)

/-- The field of an expire. -/
def decodeExpire (b : Bytes) : Option (Cont × Bytes) := do
  let (unpends, b) ← OnChain.decode b
  return (expire unpends, b)

/-- The step in CBOR, by its tag. -/
def decode (b : Bytes) : Option (Cont × Bytes) := do
  let (tag, b) ← Cbor.readTag b
  match tag with
  | 121 => readNullary add b
  | 122 => Cbor.readFramed decodeSub b
  | 123 => readNullary close b
  | 124 => Cbor.readFramed decodeRespond b
  | 125 => Cbor.readFramed decodeUnlock b
  | 126 => Cbor.readFramed decodeExpire b
  | _ => none

/-- The step as data. -/
def toData : Cont → Plutus.Data
  | add => .constr 0 []
  | sub squash unlockeds => .constr 1 [squash.toData, OnChain.toData unlockeds]
  | close => .constr 2 []
  | respond squash cheques => .constr 3 [squash.toData, OnChain.toData cheques]
  | unlock unpends => .constr 4 [OnChain.toData unpends]
  | expire unpends => .constr 5 [OnChain.toData unpends]

/-- The step that data denotes; what has no fields may come with any. -/
def ofData : Plutus.Data → Option Cont
  | .constr 0 _ => some add
  | .constr 1 [a, b] => do
    let squash ← Squash.ofData a
    let unlockeds ← OnChain.ofData b
    return sub squash unlockeds
  | .constr 2 _ => some close
  | .constr 3 [a, b] => do
    let squash ← Squash.ofData a
    let cheques ← OnChain.ofData b
    return respond squash cheques
  | .constr 4 [a] => (OnChain.ofData a).map unlock
  | .constr 5 [a] => (OnChain.ofData a).map expire
  | _ => none

instance : OnChain Cont := ⟨encode, decode, toData, ofData⟩

end Cont

namespace Step

/-- The step in CBOR. -/
def encode : Step → Bytes
  | cont step => constr 0 step.encode
  | eol step => constr 1 (Eol.encode step)

/-- The field of a step that a channel goes on from. -/
def decodeCont (b : Bytes) : Option (Step × Bytes) := do
  let (step, b) ← Cont.decode b
  return (cont step, b)

/-- The field of a step that ends a channel. -/
def decodeEol (b : Bytes) : Option (Step × Bytes) := do
  let (step, b) ← Eol.decode b
  return (eol step, b)

/-- The step in CBOR, by its tag. -/
def decode (b : Bytes) : Option (Step × Bytes) := do
  let (tag, b) ← Cbor.readTag b
  match tag with
  | 121 => Cbor.readFramed decodeCont b
  | 122 => Cbor.readFramed decodeEol b
  | _ => none

/-- The step as data. -/
def toData : Step → Plutus.Data
  | cont step => .constr 0 [step.toData]
  | eol step => .constr 1 [Eol.toData step]

/-- The step that data denotes. -/
def ofData : Plutus.Data → Option Step
  | .constr 0 [a] => (Cont.ofData a).map cont
  | .constr 1 [a] => (Eol.ofData a).map eol
  | _ => none

instance : OnChain Step := ⟨encode, decode, toData, ofData⟩

end Step

namespace Redeemer

/-- The redeemer in CBOR. -/
def encode : Redeemer → Bytes
  | defer => nullary 0
  | main steps => constr 1 (OnChain.encode steps)
  | .mutual => nullary 2

/-- The field of the main redeemer. -/
def decodeMain (b : Bytes) : Option (Redeemer × Bytes) := do
  let (steps, b) ← OnChain.decode b
  return (main steps, b)

/-- The redeemer in CBOR, by its tag. -/
def decode (b : Bytes) : Option (Redeemer × Bytes) := do
  let (tag, b) ← Cbor.readTag b
  match tag with
  | 121 => readNullary defer b
  | 122 => Cbor.readFramed decodeMain b
  | 123 => readNullary .mutual b
  | _ => none

/-- The redeemer as data. -/
def toData : Redeemer → Plutus.Data
  | defer => .constr 0 []
  | main steps => .constr 1 [OnChain.toData steps]
  | .mutual => .constr 2 []

/-- The redeemer that data denotes. -/
def ofData : Plutus.Data → Option Redeemer
  | .constr 0 _ => some defer
  | .constr 1 [a] => (OnChain.ofData a).map main
  | .constr 2 _ => some .mutual
  | _ => none

instance : OnChain Redeemer := ⟨encode, decode, toData, ofData⟩

end Redeemer

end Konduit.Data
