import Konduit.Lib.Cbor

/-!
# Plutus data and its serialisation

The bytes that the ledger's `serialiseData` makes of a Plutus data value: an empty list
has a definite head, any other list is closed by a break, and a byte string of more than
64 bytes is cut into chunks of 64.
-/

namespace Lib.Plutus

/-- Plutus data, with a note of the integers that are written as big ones. -/
inductive Data where
  | constr (i : ℕ) (fields : List Data)
  | map (entries : List (Data × Data))
  | list (items : List Data)
  | integer (n : ℤ) (big : Bool)
  | bytes (b : Bytes)

/-- An integer that is not written as a big one. -/
abbrev Data.int (n : ℤ) : Data := .integer n false

/-- The length of the chunks of a long byte string. -/
def chunkLength : ℕ := 64

/-- A byte string cut into chunks, the last of which may be shorter. -/
def chunks (b : Bytes) : List Bytes :=
  (List.range ((b.length + chunkLength - 1) / chunkLength)).map fun i =>
    (b.drop (chunkLength * i)).take chunkLength

/-- A byte string, in chunks when it is long. -/
def serialiseBytes (b : Bytes) : Bytes :=
  if b.length ≤ chunkLength then Cbor.bytes b
  else Cbor.beginBytes ++ (chunks b).flatMap Cbor.bytes ++ Cbor.stop

lemma slices_eq_chunks (b : Bytes) : b.slices chunkLength = chunks b := by
  have hpos : chunkLength ≠ 0 := by decide
  induction b using Bytes.slices.induct chunkLength with
  | case1 b h =>
    obtain rfl : b = [] := by tauto
    rw [Bytes.slices_nil]
    rfl
  | case2 b h ih =>
    have hb : b ≠ [] := by tauto
    have hlen := List.length_pos_iff.mpr hb
    -- one chunk more than after the first
    have hcount : (b.length + chunkLength - 1) / chunkLength =
        ((b.drop chunkLength).length + chunkLength - 1) / chunkLength + 1 := by
      rw [List.length_drop]
      simp only [chunkLength]
      omega
    rw [Bytes.slices_of_ne_nil hpos hb, ih, chunks, chunks, hcount, List.range_succ_eq_map,
      List.map_cons, List.map_map]
    congr 1
    refine List.map_congr_left fun i _ => ?_
    rw [Function.comp_apply, List.drop_drop, Nat.succ_eq_add_one, Nat.mul_add, Nat.mul_one,
      Nat.add_comm]

/-- A byte string is read back from its chunks. -/
lemma readChunks_serialiseBytes (b d : Bytes) :
    Cbor.readChunks (serialiseBytes b ++ d) = some (b, d) := by
  rw [serialiseBytes]
  split_ifs with hlen
  · exact Cbor.readChunks_bytes d (lt_of_le_of_lt hlen (by decide))
  · have hreads : ∀ c ∈ chunks b, Cbor.Reads Cbor.readBytes (Cbor.bytes c) c := by
      intro c hc
      rw [← slices_eq_chunks] at hc
      exact Cbor.reads_bytes (lt_of_le_of_lt (Bytes.length_of_mem_slices hc) (by decide))
    have hchunks := Cbor.readChunks_beginBytes (f := id) d hreads
    rwa [List.map_id, ← slices_eq_chunks, Bytes.flatten_slices (by decide), slices_eq_chunks,
      ← List.append_assoc, ← List.append_assoc] at hchunks

/-- The shortest big-endian bytes of a natural number. -/
def natBytes (n : ℕ) : Bytes := if n = 0 then [] else Cbor.be (Nat.log2 n / 8 + 1) n

/-- An integer: a CBOR integer when it fits in 64 bits, a bignum otherwise. -/
def serialiseInt : ℤ → Bytes
  | .ofNat n => if n < 2 ^ 64 then Cbor.head 0 n else Cbor.tag 2 ++ serialiseBytes (natBytes n)
  | .negSucc n => if n < 2 ^ 64 then Cbor.head 1 n else Cbor.tag 3 ++ serialiseBytes (natBytes n)

/-- The tag of a constructor, with the rest of its head. -/
def constrHead (i : ℕ) : Bytes :=
  if i < 7 then Cbor.tag (121 + i)
  else if i < 128 then Cbor.tag (1280 + (i - 7))
  else Cbor.tag 102 ++ Cbor.array 2 ++ Cbor.head 0 i

/-- A list of serialised items. -/
def frame (items : Bytes) (isEmpty : Bool) : Bytes :=
  if isEmpty then Cbor.array 0 else Cbor.beginArray ++ items ++ Cbor.stop

mutual
/-- The bytes of a data value. -/
def serialise : Data → Bytes
  | .constr i fields => constrHead i ++ frame (serialiseItems fields) fields.isEmpty
  | .map entries => Cbor.head 5 entries.length ++ serialiseEntries entries
  | .list items => frame (serialiseItems items) items.isEmpty
  | .integer n _ => serialiseInt n
  | .bytes b => serialiseBytes b

/-- The bytes of the items of a list. -/
def serialiseItems : List Data → Bytes
  | [] => []
  | d :: ds => serialise d ++ serialiseItems ds

/-- The bytes of the entries of a map. -/
def serialiseEntries : List (Data × Data) → Bytes
  | [] => []
  | (k, v) :: es => serialise k ++ serialise v ++ serialiseEntries es
end

lemma serialiseItems_eq_flatMap (ds : List Data) : serialiseItems ds = ds.flatMap serialise := by
  induction ds with
  | nil => rfl
  | cons d ds ih => rw [serialiseItems, List.flatMap_cons, ih]

lemma serialise_list (ds : List Data) : serialise (.list ds) = Cbor.list serialise ds := by
  rw [serialise, serialiseItems_eq_flatMap]
  cases ds <;> simp [frame, Cbor.list, Cbor.framed]

/-- A list that is not empty. -/
lemma serialise_cons (d : Data) (ds : List Data) :
    serialise (.list (d :: ds)) = Cbor.framed (serialiseItems (d :: ds)) := by
  simp [serialise, frame, Cbor.framed]

/-- A constructor with fields. -/
lemma serialise_constr {i : ℕ} (hi : i < 7) {d : Data} {ds : List Data} :
    serialise (.constr i (d :: ds)) =
      Cbor.tag (121 + i) ++ Cbor.framed (serialiseItems (d :: ds)) := by
  simp [serialise, constrHead, hi, frame, Cbor.framed]

lemma frame_ne_break (items : Bytes) (isEmpty : Bool) (b b' : Bytes) :
    frame items isEmpty ++ b ≠ 0xff :: b' := by
  rw [frame]
  split_ifs
  · exact Cbor.head_ne_break (by norm_num) _ _
  · simp [Cbor.beginArray]

lemma serialiseBytes_ne_break (x b b' : Bytes) : serialiseBytes x ++ b ≠ 0xff :: b' := by
  rw [serialiseBytes]
  split_ifs
  · rw [Cbor.bytes, List.append_assoc]
    exact Cbor.head_ne_break (by norm_num) _ _
  · simp [Cbor.beginBytes]

/-- No data value starts with the break byte. -/
lemma serialise_ne_break (d : Data) (b b' : Bytes) : serialise d ++ b ≠ 0xff :: b' := by
  cases d with
  | constr i fields =>
    rw [serialise, constrHead]
    split_ifs <;> simp only [List.append_assoc] <;> exact Cbor.head_ne_break (by norm_num) _ _
  | map entries =>
    rw [serialise, List.append_assoc]
    exact Cbor.head_ne_break (by norm_num) _ _
  | list items =>
    rw [serialise]
    exact frame_ne_break _ _ _ _
  | integer n big =>
    rw [serialise]
    cases n with
    | ofNat n | negSucc n =>
      rw [serialiseInt]
      split_ifs
      · exact Cbor.head_ne_break (by norm_num) _ _
      · rw [List.append_assoc]
        exact Cbor.head_ne_break (by norm_num) _ _
  | bytes x =>
    rw [serialise]
    exact serialiseBytes_ne_break _ _ _

/-- A list of things that are each read back is read back. -/
lemma mapM_map_of_read {α β γ : Type} {write : α → β} {read : β → Option γ} {f : α → γ}
    {as : List α} (h : ∀ a ∈ as, read (write a) = some (f a)) :
    (as.map write).mapM read = some (as.map f) := by
  induction as with
  | nil => rfl
  | cons a as ih =>
    rw [List.map_cons, List.mapM_cons, h a (by simp), ih fun b hb => h b (by simp [hb])]
    rfl

end Lib.Plutus
