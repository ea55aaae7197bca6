import Konduit.Lib.Bignum

/-!
# Integers in Plutus data

The library makes a CBOR integer of what fits into 64 bits, and else a big one of the sign and the
bytes of the magnitude.  It reads a big one the same way, so whatever it writes it reads back
(`asInteger_integer`).  But what a negative big one denotes is less by one than what its bytes
spell: below `-2 ^ 64` the library writes another integer than it is given, and it reads every
negative big one wrong (`integers_kept_iff`).
-/

open Lib

namespace Konduit.Cardano

/-! ### Big integers -/

/-- The sign of an integer. -/
inductive Sign where
  | minus
  | noSign
  | plus
deriving DecidableEq

/-- The sign of an integer. -/
def Sign.of (i : ℤ) : Sign :=
  if i < 0 then .minus else if i = 0 then .noSign else .plus

/-- The sign and the bytes of the magnitude, of which there is at least one. -/
def toBytesBe (i : ℤ) : Sign × Bytes :=
  (.of i, if i = 0 then [0] else Plutus.natBytes i.natAbs)

/-- The integer of a sign and a magnitude. -/
def fromBytesBe (sign : Sign) (bytes : Bytes) : ℤ :=
  match sign with
  | .minus => -(Cbor.unbe bytes : ℤ)
  | .noSign => 0
  | .plus => Cbor.unbe bytes

/-- The integer, if it fits into 128 bits. -/
def toI128 (i : ℤ) : Option ℤ := if -2 ^ 127 ≤ i ∧ i < 2 ^ 127 then some i else none

/-- An integer that a CBOR integer holds. -/
abbrev PallasInt := {i : ℤ // -2 ^ 64 ≤ i ∧ i < 2 ^ 64}

/-- The integer, if it fits into 64 bits and a sign. -/
def PallasInt.tryFrom (i : ℤ) : Option PallasInt :=
  if h : -2 ^ 64 ≤ i ∧ i < 2 ^ 64 then some ⟨i, h⟩ else none

/-- An integer as it is written, small or as the bytes of a magnitude. -/
inductive PallasBigInt where
  | int (i : PallasInt)
  | bigUInt (bytes : Bytes)
  | bigNInt (bytes : Bytes)
deriving DecidableEq

namespace PallasBigInt

/-- The item that an integer is written as, in small or as a big one. -/
def ofInteger (n : ℤ) (big : Bool) : PallasBigInt :=
  if h : big = false ∧ -2 ^ 64 ≤ n ∧ n < 2 ^ 64 then int ⟨n, h.2⟩
  else if n < 0 then bigNInt (Plutus.natBytes (-1 - n).toNat)
  else bigUInt (Plutus.natBytes n.toNat)

/-- The integer in CBOR. -/
def encode : PallasBigInt → Bytes
  | int i => if 0 ≤ i.1 then Cbor.head 0 i.1.toNat else Cbor.head 1 (-1 - i.1).toNat
  | bigUInt bytes => Cbor.tag 2 ++ Plutus.serialiseBytes bytes
  | bigNInt bytes => Cbor.tag 3 ++ Plutus.serialiseBytes bytes

/-- An integer in CBOR. -/
def decode (d : Bytes) : Option (PallasBigInt × Bytes) :=
  match Cbor.readHead d with
  | some (0, some n, d) => (PallasInt.tryFrom n).map fun i => (int i, d)
  | some (1, some n, d) => (PallasInt.tryFrom (-1 - n)).map fun i => (int i, d)
  | some (6, some 2, d) => (Cbor.readChunks d).map fun (bytes, d) => (bigUInt bytes, d)
  | some (6, some 3, d) => (Cbor.readChunks d).map fun (bytes, d) => (bigNInt bytes, d)
  | _ => none

/-- What the item denotes. -/
def denotes : PallasBigInt → ℤ
  | int i => i.1
  | bigUInt bytes => Cbor.unbe bytes
  | bigNInt bytes => -1 - (Cbor.unbe bytes : ℤ)

lemma denotes_ofInteger (n : ℤ) (big : Bool) : (ofInteger n big).denotes = n := by
  rw [ofInteger]
  split_ifs with h hneg
  · rfl
  · rw [denotes, Plutus.unbe_natBytes]
    omega
  · rw [denotes, Plutus.unbe_natBytes]
    omega

/-- The item denotes in CBOR what it is said to. -/
lemma readInteger_encode (x : PallasBigInt) (d : Bytes) :
    Cbor.readInteger (x.encode ++ d) = some (x.denotes, d) := by
  cases x with
  | int i =>
    obtain ⟨i, hlo, hhi⟩ := i
    rw [encode]
    split_ifs with hi
    · rw [Cbor.readInteger_of_zero (Cbor.readHead_head (by norm_num) (by norm_num; omega) d),
        denotes, Int.toNat_of_nonneg hi]
    · have hneg : 0 ≤ -1 - i := by
        simp only at hi
        omega
      rw [Cbor.readInteger_of_one (Cbor.readHead_head (by norm_num) (by norm_num; omega) d),
        denotes, Int.toNat_of_nonneg hneg]
      simp only [sub_sub_cancel]
  | bigUInt bytes =>
    rw [encode, Cbor.readInteger_of_tag_two (Cbor.readHead_tag (by norm_num) _ d),
      Plutus.readChunks_serialiseBytes]
    rfl
  | bigNInt bytes =>
    rw [encode, Cbor.readInteger_of_tag_three (Cbor.readHead_tag (by norm_num) _ d),
      Plutus.readChunks_serialiseBytes]
    rfl

/-- Whatever denotes an integer is read, as an item that denotes it. -/
lemma exists_decode {b d : Bytes} {i : ℤ} (h : Cbor.readInteger b = some (i, d)) :
    ∃ x, decode b = some (x, d) ∧ x.denotes = i := by
  rw [Cbor.readInteger] at h
  split at h
  · rename_i n d hhead
    cases h
    have hn : -2 ^ 64 ≤ (n : ℤ) ∧ (n : ℤ) < 2 ^ 64 := by
      have := Cbor.readHead_lt hhead
      omega
    refine ⟨.int ⟨n, hn⟩, ?_, rfl⟩
    rw [decode, hhead]
    simp only [PallasInt.tryFrom, dif_pos hn, Option.map_some]
  · rename_i n d hhead
    cases h
    have hn : -2 ^ 64 ≤ -1 - (n : ℤ) ∧ -1 - (n : ℤ) < 2 ^ 64 := by
      have := Cbor.readHead_lt hhead
      omega
    refine ⟨.int ⟨-1 - n, hn⟩, ?_, rfl⟩
    rw [decode, hhead]
    simp only [PallasInt.tryFrom, dif_pos hn, Option.map_some]
  · rename_i hhead
    obtain ⟨⟨bytes, d⟩, hchunks, heq⟩ := Option.map_eq_some_iff.mp h
    cases heq
    refine ⟨.bigUInt bytes, ?_, rfl⟩
    rw [decode, hhead]
    simp only [hchunks, Option.map_some]
  · rename_i hhead
    obtain ⟨⟨bytes, d⟩, hchunks, heq⟩ := Option.map_eq_some_iff.mp h
    cases heq
    refine ⟨.bigNInt bytes, ?_, rfl⟩
    rw [decode, hhead]
    simp only [hchunks, Option.map_some]
  · cases h

/-- A negative big integer is what is read after tag 3. -/
lemma eq_bigNInt_iff {b d : Bytes} {x : PallasBigInt} (h : decode b = some (x, d)) :
    (∃ bytes, x = bigNInt bytes) ↔ ∃ d', Cbor.readTag b = some (3, d') := by
  rw [decode] at h
  rw [Cbor.readTag]
  split at h
  case h_5 => cases h
  all_goals
    rename_i hhead
    obtain ⟨_, -, hx⟩ := Option.map_eq_some_iff.mp h
    cases hx
    simp [hhead]

end PallasBigInt

/-! ### Plutus data -/

/-- Data, with lists of definite or of indefinite length. -/
inductive PlutusData where
  | constr (tag : ℕ) (anyConstructor : Option ℕ) (indef : Bool) (fields : List PlutusData)
  | map (entries : List (PlutusData × PlutusData))
  | bigInt (n : PallasBigInt)
  | boundedBytes (bytes : Bytes)
  | array (indef : Bool) (elems : List PlutusData)

namespace PlutusData

/-- What the library makes of an integer. -/
def integer (i : ℤ) : PlutusData :=
  match (toI128 i).map PallasInt.tryFrom with
  | some (some i) => bigInt (.int i)
  | _ =>
    match toBytesBe i with
    | (.minus, bytes) => bigInt (.bigNInt bytes)
    | (_, bytes) => bigInt (.bigUInt bytes)

/-- A list has indefinite length unless it is empty. -/
def list (elems : List PlutusData) : PlutusData := array (!elems.isEmpty) elems

/-- A constructor by its index, with the tag that it has. -/
def ofConstr (ix : ℕ) (fields : List PlutusData) : PlutusData :=
  if ix < 7 then constr (121 + ix) none (!fields.isEmpty) fields
  else if ix < 128 then constr (1280 + ix - 7) none (!fields.isEmpty) fields
  else constr 102 (some ix) (!fields.isEmpty) fields

/-- The integer that the library reads. -/
def fromPallasBigint : PallasBigInt → ℤ
  | .int i => i.1
  | .bigUInt bytes => fromBytesBe .plus bytes
  | .bigNInt bytes => fromBytesBe .minus bytes

/-- The integer, as a value of a type that may not hold it. -/
def asInteger {T : Type} (tryFrom : ℤ → Option T) : PlutusData → Option T
  | bigInt n => tryFrom (fromPallasBigint n)
  | _ => none

/-- An array around encoded items. -/
def encodeArray (indef : Bool) (length : ℕ) (items : Bytes) : Bytes :=
  if indef then Cbor.beginArray ++ items ++ Cbor.stop else Cbor.array length ++ items

mutual

/-- The data in CBOR. -/
def encode : PlutusData → Bytes
  | constr tag anyConstructor indef fields =>
    Cbor.tag tag ++
      (if tag = 102 then Cbor.array 2 ++ Cbor.head 0 (anyConstructor.getD 0) else []) ++
        encodeArray indef fields.length (encodeItems fields)
  | map entries => Cbor.head 5 entries.length ++ encodeEntries entries
  | bigInt n => n.encode
  | boundedBytes bytes => Plutus.serialiseBytes bytes
  | array indef elems => encodeArray indef elems.length (encodeItems elems)

/-- The items in CBOR. -/
def encodeItems : List PlutusData → Bytes
  | [] => []
  | d :: ds => encode d ++ encodeItems ds

/-- The entries in CBOR. -/
def encodeEntries : List (PlutusData × PlutusData) → Bytes
  | [] => []
  | (k, v) :: es => encode k ++ encode v ++ encodeEntries es
end

/-! ### What integers become -/

section Integers

variable {i : ℤ} {x : PallasBigInt}

/-- The item of an integer: a CBOR integer where it fits, and else a big one of the magnitude. -/
def item (i : ℤ) : PallasBigInt :=
  if h : -2 ^ 64 ≤ i ∧ i < 2 ^ 64 then .int ⟨i, h⟩
  else if i < 0 then .bigNInt (Plutus.natBytes i.natAbs)
  else .bigUInt (Plutus.natBytes i.natAbs)

lemma integer_eq (i : ℤ) : integer i = bigInt (item i) := by
  rw [integer, toI128, item]
  by_cases h : -2 ^ 64 ≤ i ∧ i < 2 ^ 64
  · rw [dif_pos h, if_pos (by omega), Option.map_some, PallasInt.tryFrom, dif_pos h]
  · have hi : i ≠ 0 := by
      rintro rfl
      exact h (by norm_num)
    have hbytes : toBytesBe i = (if i < 0 then .minus else .plus, Plutus.natBytes i.natAbs) := by
      rw [toBytesBe, Sign.of, if_neg hi, if_neg hi]
    -- 128 bits make no difference to what 64 bits do not hold
    have hbig : ∀ j, (if -2 ^ 127 ≤ i ∧ i < 2 ^ 127 then some i else none).map PallasInt.tryFrom ≠
        some (some j) := by
      intro j
      split_ifs
      · rw [Option.map_some, PallasInt.tryFrom, dif_neg h]
        simp
      · simp
    rw [dif_neg h, hbytes]
    split
    · exact absurd ‹_› (hbig _)
    · split_ifs <;> rfl

/-- Whatever is made of an integer is read back as it. -/
lemma fromPallasBigint_item (i : ℤ) : fromPallasBigint (item i) = i := by
  rw [item]
  split_ifs with h hneg
  · rfl
  · rw [fromPallasBigint, fromBytesBe, Plutus.unbe_natBytes]
    omega
  · rw [fromPallasBigint, fromBytesBe, Plutus.unbe_natBytes]
    omega

/-- Below 64 bits, what is made of an integer denotes one less. -/
lemma denotes_item (i : ℤ) : (item i).denotes = if -2 ^ 64 ≤ i then i else i - 1 := by
  rw [item]
  by_cases h : -2 ^ 64 ≤ i ∧ i < 2 ^ 64
  · rw [dif_pos h, if_pos h.1]
    rfl
  · rw [dif_neg h]
    split_ifs
    · omega
    · rw [PallasBigInt.denotes, Plutus.unbe_natBytes]
      omega
    · rw [PallasBigInt.denotes, Plutus.unbe_natBytes]
      omega
    · omega

/-- An item is read for what it denotes, unless it is a negative big integer. -/
lemma fromPallasBigint_eq_denotes_iff :
    fromPallasBigint x = x.denotes ↔ ¬∃ bytes, x = .bigNInt bytes := by
  cases x with
  | int i => simp [fromPallasBigint, PallasBigInt.denotes]
  | bigUInt bytes => simp [fromPallasBigint, PallasBigInt.denotes, fromBytesBe]
  | bigNInt bytes =>
    refine iff_of_false ?_ fun h => h ⟨bytes, rfl⟩
    rw [fromPallasBigint, PallasBigInt.denotes, fromBytesBe]
    omega

/-- An integer of data is read for what it is, or for one more when it is a negative big one. -/
lemma fromPallasBigint_ofInteger (n : ℤ) (big : Bool) :
    fromPallasBigint (.ofInteger n big) =
      if n < 0 ∧ (big = true ∨ n < -2 ^ 64) then n + 1 else n := by
  have hbig := PallasBigInt.denotes_ofInteger n big
  rw [PallasBigInt.ofInteger] at hbig ⊢
  split_ifs at hbig ⊢ with hint hone hneg hone
  · grind
  · rfl
  · rw [PallasBigInt.denotes] at hbig
    rw [fromPallasBigint, fromBytesBe]
    omega
  · grind
  · omega
  · exact hbig

lemma asInteger_iff {n : ℤ} :
    (∀ (T : Type) (tryFrom : ℤ → Option T), (bigInt x).asInteger tryFrom = tryFrom n) ↔
      fromPallasBigint x = n := by
  constructor
  · intro h
    exact Option.some.inj (h ℤ some)
  · rintro rfl T tryFrom
    rfl

/-- The library reads back what it makes of an integer. -/
theorem asInteger_integer {T : Type} (tryFrom : ℤ → Option T) (i : ℤ) :
    (integer i).asInteger tryFrom = tryFrom i := by
  rw [integer_eq, asInteger_iff.mpr (fromPallasBigint_item i)]

/-- What is written of an integer denotes it, unless it is below 64 bits. -/
lemma readInteger_integer_iff (i : ℤ) (d : Bytes) :
    Cbor.readInteger ((integer i).encode ++ d) = some (i, d) ↔ -2 ^ 64 ≤ i := by
  rw [integer_eq, encode, PallasBigInt.readInteger_encode, denotes_item, Option.some.injEq,
    Prod.mk.injEq, and_iff_left rfl]
  split_ifs with h
  · exact iff_of_true rfl h
  · exact iff_of_false (by omega) h

/-- **Integers on the wire.**  What the library writes denotes the integer it is given just when
this is not below `-2 ^ 64`; it reads whatever denotes an integer, for this integer just when there
is no tag 3; and a big integer is read like the small one that denotes the same just when it is not
a negative one. -/
theorem integers_kept_iff (i : ℤ) (d : Bytes) :
    (Cbor.readInteger ((integer i).encode ++ d) = some (i, d) ↔ -2 ^ 64 ≤ i) ∧
      (∀ b, Cbor.readInteger b = some (i, d) →
        ∃ x, PallasBigInt.decode b = some (x, d) ∧
          ((∀ (T : Type) (tryFrom : ℤ → Option T), (bigInt x).asInteger tryFrom = tryFrom i) ↔
            ¬∃ d', Cbor.readTag b = some (3, d'))) ∧
      ∀ (small : PallasInt) (x : PallasBigInt), small.1 = i → x.denotes = i →
        ((bigInt x).asInteger some = (bigInt (.int small)).asInteger some ↔
          ¬∃ bytes, x = .bigNInt bytes) := by
  refine ⟨readInteger_integer_iff i d, fun b hb => ?_, fun small x hsmall hx => ?_⟩
  · obtain ⟨x, hdecode, rfl⟩ := PallasBigInt.exists_decode hb
    refine ⟨x, hdecode, ?_⟩
    rw [asInteger_iff, fromPallasBigint_eq_denotes_iff, PallasBigInt.eq_bigNInt_iff hdecode]
  · rw [← fromPallasBigint_eq_denotes_iff, hx, ← hsmall]
    exact Option.some_inj

/-- One below 64 bits, the library writes the integer below; and it reads `-1` as `0`. -/
theorem not_integers_kept :
    Cbor.readInteger (integer (-2 ^ 64 - 1)).encode = some (-2 ^ 64 - 2, []) ∧
      Cbor.readInteger [0xc3, 0x41, 0x00] = some (-1, []) ∧
        PallasBigInt.decode [0xc3, 0x41, 0x00] = some (.bigNInt [0x00], []) ∧
          (bigInt (.bigNInt [0x00])).asInteger some = some 0 := by
  refine ⟨?_, by decide, by decide, by decide⟩
  have hread := PallasBigInt.readInteger_encode (item (-2 ^ 64 - 1)) []
  rwa [List.append_nil, denotes_item, if_neg (by norm_num)] at hread

end Integers

/-! ### The ledger's bytes -/

mutual
/-- The data that the library builds. -/
def ofData : Plutus.Data → PlutusData
  | .constr ix fields => ofConstr ix (ofItems fields)
  | .map entries => map (ofEntries entries)
  | .list items => list (ofItems items)
  | .integer n _ => integer n
  | .bytes b => boundedBytes b

/-- The items as the library makes them. -/
def ofItems : List Plutus.Data → List PlutusData
  | [] => []
  | d :: ds => ofData d :: ofItems ds

/-- The entries as the library makes them. -/
def ofEntries : List (Plutus.Data × Plutus.Data) → List (PlutusData × PlutusData)
  | [] => []
  | (k, v) :: es => (ofData k, ofData v) :: ofEntries es
end

mutual
/-- No integer of the data is below 64 bits. -/
def Fits : Plutus.Data → Prop
  | .constr _ fields => FitsItems fields
  | .map entries => FitsEntries entries
  | .list items => FitsItems items
  | .integer n _ => -2 ^ 64 ≤ n
  | .bytes _ => True

/-- The items fit. -/
def FitsItems : List Plutus.Data → Prop
  | [] => True
  | d :: ds => Fits d ∧ FitsItems ds

/-- The entries fit. -/
def FitsEntries : List (Plutus.Data × Plutus.Data) → Prop
  | [] => True
  | (k, v) :: es => Fits k ∧ Fits v ∧ FitsEntries es
end

/-- The bytes of an integer are the ledger's, unless it is below 64 bits. -/
lemma encode_integer_iff {n : ℤ} : (integer n).encode = Plutus.serialiseInt n ↔ -2 ^ 64 ≤ n := by
  constructor
  · intro h
    rw [← readInteger_integer_iff n [], h]
    exact Plutus.readInteger_serialiseInt n []
  · intro h
    rw [integer_eq, encode]
    cases n with
    | ofNat n =>
      by_cases hlt : n < 2 ^ 64
      · have hint : -2 ^ 64 ≤ (n : ℤ) ∧ (n : ℤ) < 2 ^ 64 := by omega
        have hitem : item (Int.ofNat n) = .int ⟨n, hint⟩ := dif_pos hint
        rw [hitem, PallasBigInt.encode, if_pos (Int.natCast_nonneg n), Plutus.serialiseInt,
          if_pos hlt]
        rfl
      · have hint : ¬(-2 ^ 64 ≤ (n : ℤ) ∧ (n : ℤ) < 2 ^ 64) := by omega
        have hitem : item (Int.ofNat n) = .bigUInt (Plutus.natBytes n) :=
          (dif_neg hint).trans (if_neg (Int.natCast_nonneg n).not_gt)
        rw [hitem, PallasBigInt.encode, Plutus.serialiseInt, if_neg hlt]
    | negSucc n =>
      have hint : -2 ^ 64 ≤ Int.negSucc n ∧ Int.negSucc n < 2 ^ 64 := ⟨h, by omega⟩
      have hitem : item (Int.negSucc n) = .int ⟨Int.negSucc n, hint⟩ := dif_pos hint
      have hn : (-1 - Int.negSucc n).toNat = n := by omega
      rw [hitem, PallasBigInt.encode, if_neg (Int.negSucc_lt_zero n).not_ge, hn,
        Plutus.serialiseInt, if_pos (by omega)]

lemma length_ofEntries (es : List (Plutus.Data × Plutus.Data)) :
    (ofEntries es).length = es.length := by
  induction es with
  | nil => rfl
  | cons e es ih => rw [ofEntries, List.length_cons, List.length_cons, ih]

/-- A list of items is framed as the ledger frames it. -/
lemma encodeArray_ofItems (ds : List Plutus.Data) :
    encodeArray (!(ofItems ds).isEmpty) (ofItems ds).length (encodeItems (ofItems ds)) =
      Plutus.frame (encodeItems (ofItems ds)) ds.isEmpty := by
  cases ds with
  | nil => rfl
  | cons d ds => rfl

mutual
/-- Data without integers below 64 bits has the bytes that the ledger makes of it. -/
theorem encode_ofData : (d : Plutus.Data) → Fits d → (ofData d).encode = Plutus.serialise d
  | .constr ix fields, h => by
    rw [ofData, ofConstr, Plutus.serialise, Plutus.constrHead, ← encodeItems_ofItems fields h,
      ← encodeArray_ofItems]
    split_ifs
    · rw [encode, if_neg (by omega), List.append_nil]
    · rw [encode, if_neg (by omega), List.append_nil, Nat.add_sub_assoc (by omega)]
    · rw [encode, if_pos rfl, Option.getD_some, List.append_assoc _ (Cbor.array 2)]
  | .map entries, h => by
    rw [ofData, encode, Plutus.serialise, encodeEntries_ofEntries entries h, length_ofEntries]
  | .list items, h => by
    rw [ofData, list, encode, Plutus.serialise, ← encodeItems_ofItems items h, encodeArray_ofItems]
  | .integer n _, h => by
    rw [ofData, Plutus.serialise]
    exact encode_integer_iff.mpr h
  | .bytes b, _ => by
    rw [ofData, encode, Plutus.serialise]

theorem encodeItems_ofItems : (ds : List Plutus.Data) → FitsItems ds →
    encodeItems (ofItems ds) = Plutus.serialiseItems ds
  | [], _ => rfl
  | d :: ds, h => by
    rw [ofItems, encodeItems, Plutus.serialiseItems, encode_ofData d h.1,
      encodeItems_ofItems ds h.2]

theorem encodeEntries_ofEntries : (es : List (Plutus.Data × Plutus.Data)) → FitsEntries es →
    encodeEntries (ofEntries es) = Plutus.serialiseEntries es
  | [], _ => rfl
  | (k, v) :: es, h => by
    rw [ofEntries, encodeEntries, Plutus.serialiseEntries, encode_ofData k h.1,
      encode_ofData v h.2.1, encodeEntries_ofEntries es h.2.2]
end

end PlutusData

end Konduit.Cardano
