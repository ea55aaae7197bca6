import Konduit.Lib.Encoding

/-!
# Codecs of Plutus data

A codec reads a value in two ways: off a stream of bytes, and from a data value.  A streaming
reader sees how arrays and strings are framed, and a data value does not show it.  Where a codec
reads an encoding off the stream to its end, the encoding is framed as the codec expects, and its
data reads as the same value (`Codec.read_encode_iff`).

A reader that expects a break after each array may take the break of another array for it.  What
rules this out is a balance: on what is framed otherwise, it takes more breaks than beginnings.
-/

namespace Lib.Plutus

open Cbor

/-! ## What a reader leaves -/

/-- A class of token strings to read: the arguments of the tokens fit, and what is left of a
string after some of its tokens is in the class. -/
class IsInput (ok : List Token → Prop) : Prop where
  fits : ∀ {s}, ok s → ∀ token ∈ s, token.Fits
  drop : ∀ {c s}, ok (c ++ s) → ok s

lemma IsInput.tail {ok : List Token → Prop} (h : IsInput ok) {token : Token} {s : List Token}
    (hs : ok (token :: s)) : ok s :=
  h.drop (c := [token]) hs

/-- The bytes are what is left after tokens of at least a balance. -/
def Leaves (s : List Token) (b : Bytes) (n : ℤ) : Prop :=
  ∃ c s', s = c ++ s' ∧ b = encodeAll s' ∧ n ≤ balance c

namespace Leaves

variable {c s s' : List Token} {b : Bytes} {m n : ℤ}

lemma mono (h : Leaves s b n) (hmn : m ≤ n) : Leaves s b m := by
  obtain ⟨c, s', hs, hb, hn⟩ := h
  exact ⟨c, s', hs, hb, hmn.trans hn⟩

/-- Tokens that were taken before. -/
lemma prepend (h : Leaves s b n) (c : List Token) (hm : m ≤ balance c + n) :
    Leaves (c ++ s) b m := by
  obtain ⟨c', s', rfl, hb, hn⟩ := h
  refine ⟨c ++ c', s', by rw [List.append_assoc], hb, ?_⟩
  rw [balance_append]
  omega

/-- A break that is taken after. -/
lemma stop {u : Unit} {b' : Bytes} (h : Leaves s b n) (hs : ∀ token ∈ s, token.Fits)
    (hread : readStop b = some (u, b')) : Leaves s b' (n + 1) := by
  obtain ⟨c, s', rfl, rfl, hn⟩ := h
  obtain ⟨s'', rfl, rfl⟩ :=
    readStop_encodeAll (fun token ht => hs token (List.mem_append_right c ht)) hread
  refine ⟨c ++ [.stop], s'', by simp, rfl, ?_⟩
  have hstop : balance [.stop] = 1 := rfl
  rw [balance_append]
  omega

/-- When nothing is left, all the tokens were taken. -/
lemma le_balance (h : Leaves s [] n) (hs : ∀ token ∈ s, token.Fits) : n ≤ balance s := by
  obtain ⟨c, s', rfl, hb, hn⟩ := h
  obtain rfl : s' = [] :=
    eq_nil_of_encodeAll (fun token ht => hs token (List.mem_append_right c ht)) hb.symm
  rwa [List.append_nil]

end Leaves

/-! ## Codecs -/

/-- A reader of a stream and a reader of data, for the same values. -/
structure Codec (ok : List Token → Prop) (α : Type) where
  read : Bytes → Option (α × Bytes)
  ofData : Data → Option α
  /-- The data is of the shape that is read. -/
  Fits : Data → Prop
  /-- The arrays and strings are framed as the stream reader expects. -/
  Framed : Encoding → Prop
  isSome_ofData : ∀ d, (ofData d).isSome ↔ Fits d
  read_stop : ∀ b, read (0xff :: b) = none
  leaves : ∀ {s x b}, ok s → read (encodeAll s) = some (x, b) → Leaves s b 0
  sound : ∀ {e s x b}, ok (e.tokens ++ s) → read (encodeAll (e.tokens ++ s)) = some (x, b) →
    (b = encodeAll s ∧ Framed e ∧ ofData e.data = some x) ∨ Leaves (e.tokens ++ s) b 1
  complete : ∀ {e x}, e.Valid → Framed e → ofData e.data = some x →
    ∀ b, read (e.encode ++ b) = some (x, b)

namespace Codec

variable {ok : List Token → Prop} {α β : Type}

/-- What a codec reads off an encoding to its end. -/
theorem read_encode_iff [hok : IsInput ok] (codec : Codec ok α) {e : Encoding}
    (he : ok e.tokens) {x : α} :
    codec.read e.encode = some (x, []) ↔ codec.Framed e ∧ codec.ofData e.data = some x := by
  have hfits := hok.fits he
  constructor
  · intro hread
    rw [← e.tokens.append_nil] at he
    rw [Encoding.encode, ← e.tokens.append_nil] at hread
    rcases codec.sound he hread with ⟨-, hframed, hdata⟩ | hleaves
    · exact ⟨hframed, hdata⟩
    · rw [List.append_nil] at hleaves
      have hle := hleaves.le_balance hfits
      rw [e.balance_tokens] at hle
      omega
  · rintro ⟨hframed, hdata⟩
    have hread := codec.complete hfits hframed hdata []
    rwa [List.append_nil] at hread

/-! ### Integers and strings -/

/-- How integers are read as words: those that are written as words, for what they are. -/
structure WordReader where
  ofInteger : ℤ → Bool → Option UInt64
  /-- The integers that are read as some word. -/
  Reads : ℤ → Bool → Prop
  isSome_ofInteger : ∀ n big, (ofInteger n big).isSome ↔ Reads n big
  ofInteger_natCast : ∀ n : ℕ, n < 2 ^ 64 → ofInteger n false = some (UInt64.ofNat n)

/-- The word that an integer of the data is read as. -/
def wordOfData (reader : WordReader) : Data → Option UInt64
  | .integer n big => reader.ofInteger n big
  | _ => none

/-- A byte string of the data. -/
def bytesOfData : Data → Option Bytes
  | .bytes b => some b
  | _ => none

/-- A word, written as an integer and not as a bignum. -/
@[simps read ofData]
def word [hok : IsInput ok] (reader : WordReader) : Codec ok UInt64 where
  read := readUInt
  ofData := wordOfData reader
  Fits d := ∃ n big, d = .integer n big ∧ reader.Reads n big
  Framed e := ∃ w n, e = .uint w n
  isSome_ofData d := by
    cases d with
    | integer n big =>
      refine (reader.isSome_ofInteger n big).trans ⟨fun h => ⟨n, big, rfl, h⟩, ?_⟩
      rintro ⟨n, big, heq, h⟩
      cases heq
      exact h
    | _ => simp [wordOfData]
  read_stop b := rfl
  leaves {s x b} hs hread := by
    obtain ⟨w, k, s', rfl, -, rfl⟩ := readUInt_encodeAll (hok.fits hs) hread
    exact ⟨[.uint w k], s', rfl, rfl, le_rfl⟩
  sound {e s x b} hs hread := by
    obtain ⟨w, k, s', htokens, rfl, rfl⟩ := readUInt_encodeAll (hok.fits hs) hread
    obtain ⟨rfl, rfl⟩ := Encoding.eq_uint htokens
    have hk : k < w.bound := hok.fits hs (.uint w k) (by simp [Encoding.tokens])
    exact Or.inl ⟨rfl, ⟨w, k, rfl⟩, reader.ofInteger_natCast k (hk.trans_le w.bound_le)⟩
  complete {e x} hvalid hframed hdata b := by
    obtain ⟨w, n, rfl⟩ := hframed
    have hn : (Token.uint w n).Fits := hvalid (.uint w n) (by simp [Encoding.tokens])
    have hread := readUInt_encode hn b
    have hword : wordOfData reader (Encoding.uint w n).data = some (UInt64.ofNat n) :=
      reader.ofInteger_natCast n (lt_of_lt_of_le hn w.bound_le)
    rw [Option.some.inj (hword.symm.trans hdata)] at hread
    simpa [Encoding.encode, Encoding.tokens] using hread

/-- A byte string, whole or in chunks. -/
@[simps read ofData]
def chunked [hok : IsInput ok] : Codec ok Bytes where
  read := readChunks
  ofData := bytesOfData
  Fits d := ∃ b, d = .bytes b
  Framed e := ∃ str, e = .bytes str
  isSome_ofData d := by cases d <;> simp [bytesOfData]
  read_stop b := rfl
  leaves {s x b} hs hread := by
    obtain ⟨str, s', rfl, -, rfl⟩ := readChunks_encodeAll (hok.fits hs) hread
    exact ⟨str.tokens, s', rfl, rfl, str.balance_tokens.ge⟩
  sound {e s x b} hs hread := by
    have hfits := hok.fits hs
    obtain ⟨str, s', htokens, -, -⟩ := readChunks_encodeAll hfits hread
    obtain ⟨str, rfl⟩ := Encoding.eq_bytes htokens
    have hstr : ∀ token ∈ str.tokens, token.Fits := fun token ht =>
      hfits token (List.mem_append_left s ht)
    rw [encodeAll_append] at hread
    obtain ⟨rfl, rfl⟩ :=
      Prod.mk.inj (Option.some.inj ((readChunks_tokens hstr _).symm.trans hread))
    exact Or.inl ⟨rfl, ⟨str, rfl⟩, rfl⟩
  complete {e x} hvalid hframed hdata b := by
    obtain ⟨str, rfl⟩ := hframed
    rw [← Option.some.inj hdata]
    exact readChunks_tokens hvalid b

/-- A byte string that is written whole. -/
@[simps read ofData]
def bytes [hok : IsInput ok] : Codec ok Bytes where
  read := readBytes
  ofData := bytesOfData
  Fits d := ∃ b, d = .bytes b
  Framed e := ∃ w b, e = .bytes (.whole w b)
  isSome_ofData d := by cases d <;> simp [bytesOfData]
  read_stop b := rfl
  leaves {s x b} hs hread := by
    obtain ⟨w, s', rfl, rfl⟩ := readBytes_encodeAll (hok.fits hs) hread
    exact ⟨[.bytes w x], s', rfl, rfl, le_rfl⟩
  sound {e s x b} hs hread := by
    obtain ⟨w, s', htokens, rfl⟩ := readBytes_encodeAll (hok.fits hs) hread
    obtain ⟨str, rfl⟩ := @Encoding.eq_bytes _ _ _ (.whole w x) htokens
    cases str with
    | whole w' x' =>
      simp only [Encoding.tokens, Str.tokens, List.cons_append, List.nil_append, List.cons.injEq,
        Token.bytes.injEq] at htokens
      obtain ⟨⟨rfl, rfl⟩, rfl⟩ := htokens
      exact Or.inl ⟨rfl, ⟨w', x', rfl⟩, rfl⟩
    | chunks cs => simp [Encoding.tokens, Str.tokens] at htokens
  complete {e x} hvalid hframed hdata b := by
    obtain ⟨w, b', rfl⟩ := hframed
    obtain rfl : b' = x := Option.some.inj hdata
    have hread := readBytes_encode (hvalid (.bytes w b') (by simp [Encoding.tokens, Str.tokens])) b
    simpa [Encoding.encode, Encoding.tokens, Str.tokens] using hread

/-- What a function makes of the values, when it takes them. -/
@[simps read ofData]
def filterMap (codec : Codec ok α) (f : α → Option β) (P : α → Prop)
    (hP : ∀ x, (f x).isSome ↔ P x) : Codec ok β where
  read b := (codec.read b).bind fun r => (f r.1).map fun y => (y, r.2)
  ofData d := (codec.ofData d).bind f
  Fits d := ∃ x, codec.ofData d = some x ∧ P x
  Framed := codec.Framed
  isSome_ofData d := by
    cases h : codec.ofData d with
    | none => simp
    | some x => simp [hP]
  read_stop b := by rw [codec.read_stop, Option.bind_none]
  leaves {s y b} hs hread := by
    obtain ⟨⟨x, b'⟩, hx, hy⟩ := Option.bind_eq_some_iff.mp hread
    obtain ⟨y', -, heq⟩ := Option.map_eq_some_iff.mp hy
    obtain ⟨rfl, rfl⟩ := Prod.mk.inj heq
    exact codec.leaves hs hx
  sound {e s y b} hs hread := by
    obtain ⟨⟨x, b'⟩, hx, hy⟩ := Option.bind_eq_some_iff.mp hread
    obtain ⟨y', hy', heq⟩ := Option.map_eq_some_iff.mp hy
    obtain ⟨rfl, rfl⟩ := Prod.mk.inj heq
    rcases codec.sound hs hx with ⟨hb, hframed, hdata⟩ | hleaves
    · exact Or.inl ⟨hb, hframed, by rw [hdata, Option.bind_some, hy']⟩
    · exact Or.inr hleaves
  complete {e y} hvalid hframed hdata b := by
    obtain ⟨x, hx, hy⟩ := Option.bind_eq_some_iff.mp hdata
    rw [codec.complete hvalid hframed hx b, Option.bind_some, hy, Option.map_some]

/-- What a function makes of the values. -/
@[simps! read ofData]
def map (codec : Codec ok α) (f : α → β) : Codec ok β :=
  { codec.filterMap (fun x => some (f x)) (fun _ => True) (by simp) with
    Fits := codec.Fits
    isSome_ofData := fun d => by
      rw [← codec.isSome_ofData]
      show ((codec.ofData d).bind _).isSome = true ↔ _
      cases codec.ofData d <;> simp }

end Codec

end Lib.Plutus
