import Konduit.Data.OnChain

/-!
# Round trips of what goes on chain

Every well-formed datum and every well-formed redeemer is written the same by hand and by way of
Plutus data, and is read back from either (`onChain_roundTrips`).  The proof goes up through the
types, a lemma a type.
-/

open Lib

namespace Konduit.Data

open OnChain

namespace RoundTrips

variable {α : Type} [OnChain α]

lemma reads {x : α} (h : RoundTrips x) : Cbor.Reads decode (encode x) x := by
  have hbreak : ∀ b b', encode x ++ b ≠ 0xff :: b' := by
    rw [h.encode_eq]
    exact Plutus.serialise_ne_break _
  refine ⟨h.decode_encode, fun hnil => ?_, hbreak⟩
  exact hbreak [0xff] [] (by rw [hnil]; rfl)

lemma list {xs : List α} (h : ∀ x ∈ xs, RoundTrips x) : RoundTrips xs where
  encode_eq := by
    show Cbor.list encode xs = Plutus.serialise (.list (xs.map toData))
    have hitems : xs.flatMap encode = (xs.map toData).flatMap Plutus.serialise := by
      rw [List.flatMap_map]
      exact List.flatMap_congr fun x hx => (h x hx).encode_eq
    rw [Plutus.serialise_list, Cbor.list, Cbor.list, List.isEmpty_map, hitems]
  decode_encode b := Cbor.readItems_list b fun x hx => (h x hx).reads
  ofData_toData := by
    show (xs.map toData).mapM ofData = some xs
    rw [Plutus.mapM_map_of_read fun x hx => (h x hx).ofData_toData, List.map_id']

end RoundTrips

/-! ### Integers and byte strings -/

@[simp] lemma wordOfData_toNat (n : UInt64) : wordOfData (.int n.toNat) = some n := by
  rw [wordOfData, wordOfInteger_eq, if_neg (by simp), u64OfInt_toNat]

@[simp] lemma bytesOfData_bytes {n : ℕ} (b : BytesN n) : bytesOfData n (.bytes b.1) = some b :=
  BytesN.ofBytes_val b

/-- A short byte string is not cut into chunks. -/
lemma encode_bytes {b : Bytes} (hb : b.length ≤ Plutus.chunkLength) :
    Cbor.bytes b = Plutus.serialise (.bytes b) := by
  rw [Plutus.serialise, Plutus.serialiseBytes, if_pos hb]

lemma encode_bytesN {n : ℕ} (hn : n ≤ Plutus.chunkLength) (b : BytesN n) :
    Cbor.bytes b.1 = Plutus.serialise (.bytes b.1) :=
  encode_bytes (b.2.le.trans hn)

lemma roundTrips_word (n : UInt64) : RoundTrips n where
  encode_eq := encode_uint n
  decode_encode b := Cbor.readUInt_uint b n
  ofData_toData := wordOfData_toNat n

lemma Duration.encode_eq (d : Duration) : d.encode = Plutus.serialise (.int d.toInt) :=
  encode_uint d.toU64

lemma Duration.decode_encode_of_canonical {d : Duration} (h : d.Canonical) (b : Bytes) :
    decode (d.encode ++ b) = some (d, b) := by
  rw [decode_encode, h]

lemma Duration.ofData_toInt {d : Duration} (h : d.Canonical) :
    ofData (.int d.toInt) = some d := by
  rw [ofData, toInt, wordOfData_toNat, Option.map_some, h]

@[simp] lemma Latch.ofData_bytes {T : Type} [Latch T] (latch : T) :
    Latch.ofData (.bytes (Latch.bytes latch).1) = some latch := by
  rw [Latch.ofData, bytesOfData_bytes, Option.map_some, Latch.ofBytes_bytes]

@[simp] lemma Lock.ofData_bytes (lock : Lock) :
    Latch.ofData (.bytes lock.bytes.1) = some lock :=
  Latch.ofData_bytes lock

lemma Latch.encode_eq {T : Type} [Latch T] (latch : T) :
    Latch.encode latch = Plutus.serialise (.bytes (Latch.bytes latch).1) :=
  encode_bytesN (by decide) _

namespace Unpend

lemma length_toKernel_le (self : Unpend) : self.toKernel.length ≤ 32 := by
  cases self with
  | «continue» | expire => decide
  | unlock secret => exact secret.2.le

@[simp] lemma ofBytes_toKernel (self : Unpend) : ofBytes self.toKernel = self := by
  cases self with
  | «continue» | expire => rfl
  | unlock secret =>
    have hlen : secret.1.length = 32 := secret.2
    rw [toKernel, ofBytes, if_neg (by omega), dif_pos hlen]

lemma encode_eq_bytes (self : Unpend) : self.encode = Cbor.bytes self.toKernel := by
  cases self <;> rfl

lemma roundTrips (self : Unpend) : RoundTrips self where
  encode_eq := by
    show self.encode = _
    rw [encode_eq_bytes]
    exact encode_bytes (self.length_toKernel_le.trans (by decide))
  decode_encode b := by
    have hlen : self.toKernel.length < 256 ^ 8 := lt_of_le_of_lt self.length_toKernel_le (by decide)
    show decode (self.encode ++ b) = _
    rw [encode_eq_bytes, decode, Cbor.readBytes_bytes b hlen]
    simp
  ofData_toData := congrArg some self.ofBytes_toKernel

end Unpend

/-! ### Datums -/

lemma Used.roundTrips (self : Used) : RoundTrips self where
  encode_eq := by
    show self.encode = Plutus.serialise self.toData
    simp [encode, toData, Plutus.serialise_cons, Plutus.serialiseItems, encode_uint]
  decode_encode := self.decode_encode
  ofData_toData := by simp [OnChain.ofData, OnChain.toData, ofData, toData]

lemma Pending.roundTrips {self : Pending} (h : self.timeout.Canonical) : RoundTrips self where
  encode_eq := by
    show self.encode = Plutus.serialise self.toData
    simp [encode, toData, Plutus.serialise_cons, Plutus.serialiseItems, encode_uint,
      Duration.encode_eq, Latch.encode_eq, Latch.bytes]
  decode_encode b := by
    refine Cbor.readFramed_framed b fun b => ?_
    simp [decodeFields, -Duration.decode_encode, Duration.decode_encode_of_canonical h]
  ofData_toData := by
    show ofData self.toData = some self
    simp [ofData, toData, Duration.ofData_toInt h]

section Constructors

variable {i : ℕ}

lemma constr_eq_serialise (hi : i < 7) {fields : Bytes} {d : Plutus.Data} {ds : List Plutus.Data}
    (h : fields = Plutus.serialiseItems (d :: ds)) :
    constr i fields = Plutus.serialise (.constr i (d :: ds)) := by
  rw [Plutus.serialise_constr hi, ← h, constr]

lemma nullary_eq_serialise (hi : i < 7) : nullary i = Plutus.serialise (.constr i []) := by
  rw [nullary, Plutus.serialise, Plutus.constrHead, if_pos hi]
  rfl

lemma readTag_constr (hi : i < 7) (fields b : Bytes) :
    Cbor.readTag (constr i fields ++ b) = some (121 + i, Cbor.framed fields ++ b) := by
  rw [constr, List.append_assoc, Cbor.readTag_tag _ (by omega)]

lemma readTag_nullary (hi : i < 7) (b : Bytes) :
    Cbor.readTag (nullary i ++ b) = some (121 + i, Cbor.array 0 ++ b) := by
  rw [nullary, List.append_assoc, Cbor.readTag_tag _ (by omega)]

lemma readNullary_array {α : Type} (x : α) (b : Bytes) :
    readNullary x (Cbor.array 0 ++ b) = some (x, b) := by
  rw [readNullary, Cbor.readArray_array _ (by norm_num)]
  rfl

end Constructors

lemma Stage.roundTrips {self : Stage} (h : self.Canonical) : RoundTrips self := by
  cases self with
  | opened subbed useds =>
    obtain ⟨hwrite, hread, hdata⟩ := RoundTrips.list fun used (_ : used ∈ useds) => used.roundTrips
    refine ⟨constr_eq_serialise (by norm_num) ?_, fun b => ?_, ?_⟩
    · simp only [Plutus.serialiseItems, encode_uint, hwrite, List.append_nil]
      rfl
    · show decode (constr 0 _ ++ b) = _
      rw [decode, readTag_constr (by norm_num)]
      refine Cbor.readFramed_framed b fun b => ?_
      simp [decodeOpened, hread]
    · show ofData (.constr 0 [.int subbed.toNat, OnChain.toData useds]) = _
      simp [ofData, hdata]
  | closed subbed useds elapseAt =>
    obtain ⟨hwrite, hread, hdata⟩ := RoundTrips.list fun used (_ : used ∈ useds) => used.roundTrips
    refine ⟨constr_eq_serialise (by norm_num) ?_, fun b => ?_, ?_⟩
    · simp only [Plutus.serialiseItems, encode_uint, hwrite, elapseAt.encode_eq, List.append_nil,
        List.append_assoc]
      rfl
    · show decode (constr 1 _ ++ b) = _
      rw [decode, readTag_constr (by norm_num)]
      refine Cbor.readFramed_framed b fun b => ?_
      simp [decodeClosed, hread, -Duration.decode_encode, Duration.decode_encode_of_canonical h]
    · show ofData (.constr 1 [.int subbed.toNat, OnChain.toData useds, .int elapseAt.toInt]) = _
      simp [ofData, hdata, Duration.ofData_toInt h]
  | responded pendingsAmount pendings =>
    obtain ⟨hwrite, hread, hdata⟩ := RoundTrips.list fun p hp => Pending.roundTrips (h p hp)
    refine ⟨constr_eq_serialise (by norm_num) ?_, fun b => ?_, ?_⟩
    · simp only [Plutus.serialiseItems, encode_uint, hwrite, List.append_nil]
      rfl
    · show decode (constr 2 _ ++ b) = _
      rw [decode, readTag_constr (by norm_num)]
      refine Cbor.readFramed_framed b fun b => ?_
      simp [decodeResponded, hread]
    · show ofData (.constr 2 [.int pendingsAmount.toNat, OnChain.toData pendings]) = _
      simp [ofData, hdata]

lemma VerifyingKey.encode_eq (key : VerifyingKey) :
    key.encode = Plutus.serialise (.bytes key.bytes.1) :=
  encode_bytesN (by decide) key.bytes

lemma Tag.encode_eq (tag : Tag) : tag.encode = Plutus.serialise (.bytes tag.bytes) :=
  PlutusBytes.encode_eq tag.bytes

lemma Constants.roundTrips {self : Constants} (h : self.closePeriod.Canonical) :
    RoundTrips self where
  encode_eq := by
    show self.encode = Plutus.serialise self.toData
    simp [encode, toData, Plutus.serialise_cons, Plutus.serialiseItems, Tag.encode_eq,
      VerifyingKey.encode_eq, Duration.encode_eq]
  decode_encode b := by
    refine Cbor.readFramed_framed b fun b => ?_
    simp [decodeFields, -Duration.decode_encode, Duration.decode_encode_of_canonical h]
  ofData_toData := by
    show ofData self.toData = some self
    simp [ofData, toData, Tag.ofData, Duration.ofData_toInt h]

namespace Datum

/-- The hash is of the length of a script hash, and the times are in whole milliseconds. -/
structure WellFormed (datum : Datum) : Prop where
  ownHash : datum.ownHash.length = 28
  closePeriod : datum.constants.closePeriod.Canonical
  stage : datum.stage.Canonical

lemma roundTrips {self : Datum} (h : self.WellFormed) : RoundTrips self where
  encode_eq := by
    have hconstants : self.constants.encode = Plutus.serialise self.constants.toData :=
      (Constants.roundTrips h.closePeriod).encode_eq
    have hstage : self.stage.encode = Plutus.serialise self.stage.toData :=
      (Stage.roundTrips h.stage).encode_eq
    have hhash : Cbor.bytes self.ownHash = Plutus.serialise (.bytes self.ownHash) :=
      encode_bytes (by rw [h.ownHash]; decide)
    show self.encode = Plutus.serialise self.toData
    simp [encode, toData, Plutus.serialise_cons, Plutus.serialiseItems, hhash, hconstants, hstage]
  decode_encode b := by
    have hconstants : ∀ b, Constants.decode (self.constants.encode ++ b) =
        some (self.constants, b) := (Constants.roundTrips h.closePeriod).decode_encode
    have hstage : ∀ b, Stage.decode (self.stage.encode ++ b) = some (self.stage, b) :=
      (Stage.roundTrips h.stage).decode_encode
    have hlen : self.ownHash.length < 256 ^ 8 := by rw [h.ownHash]; norm_num
    refine Cbor.readFramed_framed b fun b => ?_
    simp [decodeFields, Cbor.readBytes_bytes _ hlen, BytesN.ofBytes, h.ownHash, hconstants, hstage]
  ofData_toData := by
    have hconstants : Constants.ofData self.constants.toData = some self.constants :=
      (Constants.roundTrips h.closePeriod).ofData_toData
    have hstage : Stage.ofData self.stage.toData = some self.stage :=
      (Stage.roundTrips h.stage).ofData_toData
    show ofData self.toData = some self
    simp [ofData, toData, bytesOfData, BytesN.ofBytes, h.ownHash, hconstants, hstage]

end Datum

/-! ### Evidence -/

namespace SquashBody

lemma encode_eq_serialise (self : SquashBody) : self.encode = Plutus.serialise self.toData := by
  have hexclude : self.exclude.encode = Plutus.serialise (OnChain.toData self.exclude.items) :=
    encode_exclude self.exclude
  simp [encode, toData, Plutus.serialise_cons, Plutus.serialiseItems, encode_uint, hexclude]

lemma roundTrips {self : SquashBody} (h : self.WellFormed) : RoundTrips self where
  encode_eq := self.encode_eq_serialise
  decode_encode b := by
    show decode (self.encode ++ b) = _
    rw [decode_encode, if_pos h]
  ofData_toData := by
    have hitems : OnChain.ofData (OnChain.toData self.exclude.items) = some self.exclude.items :=
      (RoundTrips.list fun n _ => roundTrips_word n).ofData_toData
    have hexclude : Indexes.new self.exclude.items = .ok self.exclude :=
      Indexes.new_eq_ok.mpr ⟨rfl, h.exclude⟩
    have hnew : new self.amount self.index self.exclude = .ok self :=
      (new_eq_ok h.exclude).mpr ⟨rfl, h⟩
    show ofData self.toData = some self
    simp [ofData, toData, hitems, hexclude, hnew, Except.toOption]

end SquashBody

lemma Signature.encode_eq (signature : Signature) :
    signature.encode = Plutus.serialise (.bytes signature.bytes.1) :=
  encode_bytesN (by decide) signature.bytes

namespace Squash

variable {self : Squash .unverified}

lemma encode_eq_serialise : self.encode = Plutus.serialise self.toData := by
  simp [encode, toData, Plutus.serialise_cons, Plutus.serialiseItems, Signature.encode_eq,
    SquashBody.encode_eq_serialise]

lemma decode_encode_of_wellFormed (h : self.body.WellFormed) (b : Bytes) :
    decode (self.encode ++ b) = some (self, b) := by
  rw [decode_encode, if_pos h]
  rfl

lemma ofData_toData (h : self.body.WellFormed) : ofData self.toData = some self := by
  have hbody : SquashBody.ofData self.body.toData = some self.body :=
    (SquashBody.roundTrips h).ofData_toData
  simp [ofData, toData, hbody]

end Squash

section Cheques

variable {T : Type} [Latch T]

namespace ChequeBody

lemma encode_eq_serialise (self : ChequeBody T) : self.encode = Plutus.serialise self.toData := by
  simp [encode, toData, Plutus.serialise_cons, Plutus.serialiseItems, encode_uint,
    Duration.encode_eq, Latch.encode_eq]

lemma ofData_toData {self : ChequeBody T} (h : self.timeout.Canonical) :
    ofData self.toData = some self := by
  obtain ⟨index, amount, timeout, latch⟩ := self
  have htimeout : Duration.fromMillis timeout.toU64 = timeout := h
  simp [ofData, toData, Duration.toInt, htimeout]

end ChequeBody

namespace ChequeSigned

variable {self : ChequeSigned T .unverified}

lemma encodeFields_eq (self : ChequeSigned T .unverified) :
    self.encodeFields = Plutus.serialiseItems self.fieldsData := by
  simp [encodeFields, fieldsData, Plutus.serialiseItems, ChequeBody.encode_eq_serialise,
    Signature.encode_eq]

lemma ofFields_fieldsData (h : self.body.timeout.Canonical) :
    ofFields self.fieldsData = some self := by
  simp [ofFields, fieldsData, ChequeBody.ofData_toData h]

omit [Latch T] in
lemma wire_eq_self (h : self.body.timeout.Canonical) : self.wire = self := by
  rw [wire, ChequeBody.wire_eq_self.mpr h]

lemma roundTrips (h : self.body.timeout.Canonical) : RoundTrips self where
  encode_eq := by
    show self.encode = Plutus.serialise (.list self.fieldsData)
    rw [encode, encodeFields_eq, fieldsData, Plutus.serialise_cons]
  decode_encode b := by
    have hfields := Cbor.readFramed_framed b self.decodeFields_encodeFields
    rwa [wire_eq_self h] at hfields
  ofData_toData := ofFields_fieldsData h

end ChequeSigned

end Cheques

lemma Cheque.roundTrips {self : Cheque .unverified} (h : self.timeout.Canonical) :
    RoundTrips self := by
  cases self with
  | unlocked cheque =>
    have hfields := cheque.encodeFields_eq
    refine ⟨constr_eq_serialise (i := 0) (by norm_num) hfields, fun b => ?_, ?_⟩
    · have hread := (reads_cheque (unlocked cheque)).1 b
      rwa [wire, ChequeSigned.wire_eq_self h] at hread
    · show ofData (.constr 0 cheque.fieldsData) = _
      rw [ofData, ChequeSigned.ofFields_fieldsData h, Option.map_some]
  | locked cheque =>
    have hfields := cheque.encodeFields_eq
    refine ⟨constr_eq_serialise (i := 1) (by norm_num) hfields, fun b => ?_, ?_⟩
    · have hread := (reads_cheque (locked cheque)).1 b
      rwa [wire, ChequeSigned.wire_eq_self h] at hread
    · show ofData (.constr 1 cheque.fieldsData) = _
      rw [ofData, ChequeSigned.ofFields_fieldsData h, Option.map_some]

/-! ### Steps and redeemers -/

lemma Eol.roundTrips (self : Eol) : RoundTrips self := by
  cases self with
  | «end» | elapse =>
    refine ⟨nullary_eq_serialise (by norm_num), fun b => ?_, rfl⟩
    show decode (nullary _ ++ b) = _
    rw [decode, readTag_nullary (by norm_num)]
    exact readNullary_array _ b

namespace Cont

/-- The squash is well-formed, and the times of the cheques are in whole milliseconds. -/
def WellFormed : Cont → Prop
  | sub squash unlockeds =>
    squash.body.WellFormed ∧ ∀ u ∈ unlockeds, u.body.timeout.Canonical
  | respond squash cheques => squash.body.WellFormed ∧ ∀ c ∈ cheques, c.timeout.Canonical
  | _ => True

lemma roundTrips {self : Cont} (h : self.WellFormed) : RoundTrips self := by
  cases self with
  | add | close =>
    refine ⟨nullary_eq_serialise (by norm_num), fun b => ?_, rfl⟩
    show decode (nullary _ ++ b) = _
    rw [decode, readTag_nullary (by norm_num)]
    exact readNullary_array _ b
  | sub squash unlockeds =>
    obtain ⟨hwrite, hread, hdata⟩ := RoundTrips.list fun u hu => ChequeSigned.roundTrips (h.2 u hu)
    refine ⟨constr_eq_serialise (by norm_num) ?_, fun b => ?_, ?_⟩
    · rw [hwrite, Squash.encode_eq_serialise, Plutus.serialiseItems, Plutus.serialiseItems,
        Plutus.serialiseItems, List.append_nil]
    · show decode (constr 1 _ ++ b) = _
      rw [decode, readTag_constr (by norm_num)]
      refine Cbor.readFramed_framed b fun b => ?_
      simp [decodeSub, Squash.decode_encode_of_wellFormed h.1, hread]
    · show ofData (.constr 1 [squash.toData, OnChain.toData unlockeds]) = _
      simp [ofData, Squash.ofData_toData h.1, hdata]
  | respond squash cheques =>
    obtain ⟨hwrite, hread, hdata⟩ := RoundTrips.list fun c hc => Cheque.roundTrips (h.2 c hc)
    refine ⟨constr_eq_serialise (by norm_num) ?_, fun b => ?_, ?_⟩
    · rw [hwrite, Squash.encode_eq_serialise, Plutus.serialiseItems, Plutus.serialiseItems,
        Plutus.serialiseItems, List.append_nil]
    · show decode (constr 3 _ ++ b) = _
      rw [decode, readTag_constr (by norm_num)]
      refine Cbor.readFramed_framed b fun b => ?_
      simp [decodeRespond, Squash.decode_encode_of_wellFormed h.1, hread]
    · show ofData (.constr 3 [squash.toData, OnChain.toData cheques]) = _
      simp [ofData, Squash.ofData_toData h.1, hdata]
  | unlock unpends =>
    obtain ⟨hwrite, hread, hdata⟩ :=
      RoundTrips.list fun (unpend : Unpend) (_ : unpend ∈ unpends) => unpend.roundTrips
    refine ⟨constr_eq_serialise (by norm_num) ?_, fun b => ?_, ?_⟩
    · rw [hwrite, Plutus.serialiseItems, Plutus.serialiseItems, List.append_nil]
    · show decode (constr 4 _ ++ b) = _
      rw [decode, readTag_constr (by norm_num)]
      refine Cbor.readFramed_framed b fun b => ?_
      simp [decodeUnlock, hread]
    · show ofData (.constr 4 [OnChain.toData unpends]) = _
      simp [ofData, hdata]
  | expire unpends =>
    obtain ⟨hwrite, hread, hdata⟩ :=
      RoundTrips.list fun (unpend : Unpend) (_ : unpend ∈ unpends) => unpend.roundTrips
    refine ⟨constr_eq_serialise (by norm_num) ?_, fun b => ?_, ?_⟩
    · rw [hwrite, Plutus.serialiseItems, Plutus.serialiseItems, List.append_nil]
    · show decode (constr 5 _ ++ b) = _
      rw [decode, readTag_constr (by norm_num)]
      refine Cbor.readFramed_framed b fun b => ?_
      simp [decodeExpire, hread]
    · show ofData (.constr 5 [OnChain.toData unpends]) = _
      simp [ofData, hdata]

end Cont

namespace Step

/-- The squash of the step is well-formed. -/
def WellFormed : Step → Prop
  | cont step => step.WellFormed
  | eol _ => True

lemma roundTrips {self : Step} (h : self.WellFormed) : RoundTrips self := by
  cases self with
  | cont step =>
    have hwrite : step.encode = Plutus.serialise step.toData := (Cont.roundTrips h).encode_eq
    have hread : ∀ b, Cont.decode (step.encode ++ b) = some (step, b) :=
      (Cont.roundTrips h).decode_encode
    have hdata : Cont.ofData step.toData = some step := (Cont.roundTrips h).ofData_toData
    refine ⟨constr_eq_serialise (by norm_num) ?_, fun b => ?_, ?_⟩
    · rw [hwrite, Plutus.serialiseItems, Plutus.serialiseItems, List.append_nil]
    · show decode (constr 0 _ ++ b) = _
      rw [decode, readTag_constr (by norm_num)]
      refine Cbor.readFramed_framed b fun b => ?_
      simp [decodeCont, hread]
    · show ofData (.constr 0 [step.toData]) = _
      rw [ofData, hdata, Option.map_some]
  | eol step =>
    have hwrite : Eol.encode step = Plutus.serialise (Eol.toData step) :=
      (Eol.roundTrips step).encode_eq
    have hread : ∀ b, Eol.decode (Eol.encode step ++ b) = some (step, b) :=
      (Eol.roundTrips step).decode_encode
    have hdata : Eol.ofData (Eol.toData step) = some step := (Eol.roundTrips step).ofData_toData
    refine ⟨constr_eq_serialise (by norm_num) ?_, fun b => ?_, ?_⟩
    · rw [hwrite, Plutus.serialiseItems, Plutus.serialiseItems, List.append_nil]
    · show decode (constr 1 _ ++ b) = _
      rw [decode, readTag_constr (by norm_num)]
      refine Cbor.readFramed_framed b fun b => ?_
      simp [decodeEol, hread]
    · show ofData (.constr 1 [Eol.toData step]) = _
      rw [ofData, hdata, Option.map_some]

end Step

namespace Redeemer

/-- The squashes of the steps are well-formed. -/
def WellFormed : Redeemer → Prop
  | main steps => ∀ step ∈ steps, step.WellFormed
  | _ => True

lemma roundTrips {self : Redeemer} (h : self.WellFormed) : RoundTrips self := by
  cases self with
  | defer | «mutual» =>
    refine ⟨nullary_eq_serialise (by norm_num), fun b => ?_, rfl⟩
    show decode (nullary _ ++ b) = _
    rw [decode, readTag_nullary (by norm_num)]
    exact readNullary_array _ b
  | main steps =>
    obtain ⟨hwrite, hread, hdata⟩ := RoundTrips.list fun step hs => Step.roundTrips (h step hs)
    refine ⟨constr_eq_serialise (by norm_num) ?_, fun b => ?_, ?_⟩
    · rw [hwrite, Plutus.serialiseItems, Plutus.serialiseItems, List.append_nil]
    · show decode (constr 1 _ ++ b) = _
      rw [decode, readTag_constr (by norm_num)]
      refine Cbor.readFramed_framed b fun b => ?_
      simp [decodeMain, hread]
    · show ofData (.constr 1 [OnChain.toData steps]) = _
      rw [ofData, hdata, Option.map_some]

end Redeemer

/-! ### What goes on chain -/

/-- Well-formed datums and redeemers of any size are written as the Plutus data they stand for,
and read back from it. -/
theorem onChain_roundTrips {datum : Datum} (hdatum : datum.WellFormed) {redeemer : Redeemer}
    (hredeemer : redeemer.WellFormed) : RoundTrips datum ∧ RoundTrips redeemer :=
  ⟨Datum.roundTrips hdatum, Redeemer.roundTrips hredeemer⟩

/-- A datum with a tag in two chunks, and a redeemer with a squash and a cheque. -/
theorem onChain_roundTrips_of_sample :
    RoundTrips (⟨List.replicate 28 0, ⟨⟨List.replicate 70 1⟩, ⟨BytesN.fill 32 2⟩,
      ⟨BytesN.fill 32 3⟩, Duration.fromMillis 1000⟩,
      .responded 7 [⟨7, Duration.fromMillis 5, ⟨BytesN.fill 32 4⟩⟩]⟩ : Datum) ∧
    RoundTrips (Redeemer.main [.cont (.sub ⟨⟨5, 3, ⟨[1]⟩⟩, ⟨BytesN.fill 64 0⟩⟩
      [⟨⟨4, 10, Duration.fromMillis 9, ⟨BytesN.fill 32 4⟩⟩, ⟨BytesN.fill 64 0⟩⟩]), .eol .end]) := by
  refine onChain_roundTrips ?_ ?_
  · constructor
    · simp
    · exact Duration.canonical_fromMillis _
    · simp [Stage.Canonical, Duration.canonical_fromMillis]
  · have hsquash : SquashBody.WellFormed ⟨5, 3, ⟨[1]⟩⟩ := by decide
    simp [Redeemer.WellFormed, Step.WellFormed, Cont.WellFormed, hsquash,
      Duration.canonical_fromMillis]

end Konduit.Data
