import Mathlib.Algebra.BigOperators.Group.List.Basic
import Konduit.Lib.Plutus

/-!
# Every encoding of Plutus data

One data value has many encodings: an argument at any width that it fits, an array of definite
or indefinite length, a byte string whole or in chunks, a small integer as a bignum.  An encoding
is a tree; its tokens are the heads, strings and breaks of it in order, and its bytes are those of
the tokens.  Breaks and beginnings of indefinite length balance in it (`Encoding.balance_tokens`).
-/

namespace Lib.Cbor

/-! ## Tokens -/

/-- The heads, strings and breaks that the encodings of Plutus data are made of. -/
inductive Token where
  | uint (w : Width) (n : ℕ)
  | nint (w : Width) (n : ℕ)
  | bytes (w : Width) (b : Bytes)
  | beginBytes
  | array (w : Width) (n : ℕ)
  | beginArray
  | map (w : Width) (n : ℕ)
  | beginMap
  | tag (w : Width) (n : ℕ)
  | stop
deriving DecidableEq

namespace Token

/-- The bytes of a token. -/
def encode : Token → Bytes
  | uint w n => headAt w 0 n
  | nint w n => headAt w 1 n
  | bytes w b => headAt w 2 b.length ++ b
  | beginBytes => Cbor.beginBytes
  | array w n => headAt w 4 n
  | beginArray => Cbor.beginArray
  | map w n => headAt w 5 n
  | beginMap => [0xbf]
  | tag w n => headAt w 6 n
  | stop => Cbor.stop

/-- The argument fits the width. -/
def Fits : Token → Prop
  | uint w n | nint w n | array w n | map w n | tag w n => n < w.bound
  | bytes w b => b.length < w.bound
  | _ => True

/-- How a token changes what is left open. -/
def balance : Token → ℤ
  | stop => 1
  | beginBytes | beginArray | beginMap => -1
  | _ => 0

/-- The major type of its head. -/
def major : Token → ℕ
  | uint _ _ => 0
  | nint _ _ => 1
  | bytes _ _ | beginBytes => 2
  | array _ _ | beginArray => 4
  | map _ _ | beginMap => 5
  | tag _ _ => 6
  | stop => 7

/-- The argument of its head, unless it is of indefinite length or a break. -/
def arg : Token → Option ℕ
  | uint _ n | nint _ n | array _ n | map _ n | tag _ n => some n
  | bytes _ b => some b.length
  | _ => none

/-- What comes after the head. -/
def payload : Token → Bytes
  | bytes _ b => b
  | _ => []

lemma readHead_encode {token : Token} (h : token.Fits) (d : Bytes) :
    readHead (token.encode ++ d) = some (token.major, token.arg, token.payload ++ d) := by
  cases token with
  | bytes w b =>
    rw [encode, List.append_assoc]
    exact readHead_headAt (by norm_num) h _
  | uint w n | nint w n | array w n | map w n | tag w n =>
    exact readHead_headAt (by norm_num) h d
  | beginBytes | beginArray | beginMap | stop => rfl

end Token

/-- The bytes of tokens in a row. -/
def encodeAll (tokens : List Token) : Bytes := tokens.flatMap Token.encode

/-- How many more breaks there are than beginnings. -/
def balance (tokens : List Token) : ℤ := (tokens.map Token.balance).sum

variable {token : Token} {s s' : List Token} {b : Bytes}

@[simp] lemma encodeAll_nil : encodeAll [] = [] := rfl

@[simp] lemma encodeAll_cons : encodeAll (token :: s) = token.encode ++ encodeAll s := rfl

@[simp] lemma encodeAll_append : encodeAll (s ++ s') = encodeAll s ++ encodeAll s' :=
  List.flatMap_append

@[simp] lemma balance_nil : balance [] = 0 := rfl

@[simp] lemma balance_cons : balance (token :: s) = token.balance + balance s := rfl

@[simp] lemma balance_append : balance (s ++ s') = balance s + balance s' := by
  simp [balance]

/-! ### What a reader takes -/

lemma readHead_encodeAll (h : ∀ token ∈ s, token.Fits) {r : ℕ × Option ℕ × Bytes}
    (hread : readHead (encodeAll s) = some r) :
    ∃ token s', s = token :: s' ∧ token.Fits ∧
      r = (token.major, token.arg, token.payload ++ encodeAll s') := by
  cases s with
  | nil => simp [readHead] at hread
  | cons token s' =>
    have hfits : token.Fits := h token (by simp)
    rw [encodeAll_cons, Token.readHead_encode hfits] at hread
    exact ⟨token, s', rfl, hfits, (Option.some.inj hread).symm⟩

lemma readUInt_encodeAll (h : ∀ token ∈ s, token.Fits) {n : UInt64}
    (hread : readUInt (encodeAll s) = some (n, b)) :
    ∃ w k s', s = .uint w k :: s' ∧ n = UInt64.ofNat k ∧ b = encodeAll s' := by
  unfold readUInt at hread
  split at hread
  · next k d hhead =>
    obtain ⟨token, s', rfl, -, heq⟩ := readHead_encodeAll h hhead
    cases token with
    | uint w k' =>
      obtain ⟨rfl, rfl⟩ : k = k' ∧ d = encodeAll s' := by
        simpa [Token.major, Token.arg, Token.payload] using heq
      obtain ⟨rfl, rfl⟩ := Prod.mk.inj (Option.some.inj hread)
      exact ⟨w, k, s', rfl, rfl, rfl⟩
    | _ => simp [Token.major, Token.arg] at heq
  · simp at hread

lemma readBytes_encodeAll (h : ∀ token ∈ s, token.Fits) {x : Bytes}
    (hread : readBytes (encodeAll s) = some (x, b)) :
    ∃ w s', s = .bytes w x :: s' ∧ b = encodeAll s' := by
  unfold readBytes at hread
  split at hread
  · next k d hhead =>
    obtain ⟨token, s', rfl, -, heq⟩ := readHead_encodeAll h hhead
    cases token with
    | bytes w x' =>
      obtain ⟨rfl, rfl⟩ : k = x'.length ∧ d = x' ++ encodeAll s' := by
        simpa [Token.major, Token.arg, Token.payload] using heq
      rw [readContents_append] at hread
      obtain ⟨rfl, rfl⟩ := Prod.mk.inj (Option.some.inj hread)
      exact ⟨w, s', rfl, rfl⟩
    | _ => simp [Token.major, Token.arg] at heq
  · simp at hread

lemma readArray_encodeAll (h : ∀ token ∈ s, token.Fits) {n : Option ℕ}
    (hread : readArray (encodeAll s) = some (n, b)) :
    (∃ w k s', n = some k ∧ s = .array w k :: s' ∧ b = encodeAll s') ∨
      ∃ s', n = none ∧ s = .beginArray :: s' ∧ b = encodeAll s' := by
  unfold readArray at hread
  split at hread
  · next k d hhead =>
    obtain ⟨rfl, rfl⟩ := Prod.mk.inj (Option.some.inj hread)
    obtain ⟨token, s', rfl, -, heq⟩ := readHead_encodeAll h hhead
    cases token with
    | array w k' =>
      obtain ⟨rfl, rfl⟩ : k = some k' ∧ d = encodeAll s' := by
        simpa [Token.major, Token.arg, Token.payload] using heq
      exact Or.inl ⟨w, k', s', rfl, rfl, rfl⟩
    | beginArray =>
      obtain ⟨rfl, rfl⟩ : k = none ∧ d = encodeAll s' := by
        simpa [Token.major, Token.arg, Token.payload] using heq
      exact Or.inr ⟨s', rfl, rfl, rfl⟩
    | _ => simp [Token.major] at heq
  · simp at hread

lemma readTag_encodeAll (h : ∀ token ∈ s, token.Fits) {n : ℕ}
    (hread : readTag (encodeAll s) = some (n, b)) :
    ∃ w s', s = .tag w n :: s' ∧ b = encodeAll s' := by
  unfold readTag at hread
  split at hread
  · next k d hhead =>
    obtain ⟨rfl, rfl⟩ := Prod.mk.inj (Option.some.inj hread)
    obtain ⟨token, s', rfl, -, heq⟩ := readHead_encodeAll h hhead
    cases token with
    | tag w k' =>
      obtain ⟨rfl, rfl⟩ : k = k' ∧ d = encodeAll s' := by
        simpa [Token.major, Token.arg, Token.payload] using heq
      exact ⟨w, s', rfl, rfl⟩
    | _ => simp [Token.major, Token.arg] at heq
  · simp at hread

/-- A break byte in front is a break. -/
lemma encodeAll_eq_break (h : ∀ token ∈ s, token.Fits) (heq : encodeAll s = 0xff :: b) :
    ∃ s', s = .stop :: s' ∧ b = encodeAll s' := by
  have hhead : readHead (encodeAll s) = some (7, none, b) := by rw [heq]; rfl
  obtain ⟨token, s', rfl, -, heq⟩ := readHead_encodeAll h hhead
  cases token with
  | stop => exact ⟨s', rfl, by simpa [Token.major, Token.arg, Token.payload] using heq⟩
  | _ => simp [Token.major] at heq

lemma readStop_encodeAll (h : ∀ token ∈ s, token.Fits) {u : Unit}
    (hread : readStop (encodeAll s) = some (u, b)) : ∃ s', s = .stop :: s' ∧ b = encodeAll s' := by
  unfold readStop at hread
  split at hread
  · next d heq =>
    obtain ⟨-, rfl⟩ := Prod.mk.inj (Option.some.inj hread)
    exact encodeAll_eq_break h heq
  · simp at hread

/-! ### Strings -/

/-- A byte string, whole or in chunks. -/
inductive Str where
  | whole (w : Width) (b : Bytes)
  | chunks (cs : List (Width × Bytes))

namespace Str

/-- The bytes that the string holds. -/
def contents : Str → Bytes
  | whole _ b => b
  | chunks cs => (cs.map Prod.snd).flatten

/-- The string whole, or its chunks up to a break. -/
def tokens : Str → List Token
  | whole w b => [.bytes w b]
  | chunks cs => .beginBytes :: (cs.map fun c => .bytes c.1 c.2) ++ [.stop]

end Str

lemma balance_chunks (cs : List (Width × Bytes)) :
    balance (cs.map fun c => Token.bytes c.1 c.2) = 0 := by
  induction cs with
  | nil => rfl
  | cons c cs ih => simp [Token.balance, ih]

@[simp] lemma Str.balance_tokens (str : Str) : balance str.tokens = 0 := by
  cases str with
  | whole w b => rfl
  | chunks cs => simp [tokens, Token.balance, balance_chunks]

/-- Chunks of a string, up to the break. -/
lemma readToStop_readBytes_encodeAll {fuel : ℕ} (h : ∀ token ∈ s, token.Fits) {bs : List Bytes}
    (hread : readToStop readBytes fuel (encodeAll s) = some (bs, b)) :
    ∃ (cs : List (Width × Bytes)) (s' : List Token), bs = cs.map Prod.snd ∧
      s = (cs.map fun c => Token.bytes c.1 c.2) ++ .stop :: s' ∧ b = encodeAll s' := by
  induction fuel generalizing s bs with
  | zero => simp [readToStop] at hread
  | succ fuel ih =>
    rcases readToStop_eq_some hread with ⟨heq, rfl⟩ | ⟨-, x, r, bs', hx, hbs, rfl⟩
    · obtain ⟨s', rfl, rfl⟩ := encodeAll_eq_break h heq
      exact ⟨[], s', rfl, rfl, rfl⟩
    · obtain ⟨w, s₁, rfl, rfl⟩ := readBytes_encodeAll h hx
      obtain ⟨cs, s', rfl, rfl, rfl⟩ := ih (fun token ht => h token (by simp [ht])) hbs
      exact ⟨(w, x) :: cs, s', rfl, rfl, rfl⟩

lemma readChunks_encodeAll (h : ∀ token ∈ s, token.Fits) {x : Bytes}
    (hread : readChunks (encodeAll s) = some (x, b)) :
    ∃ (str : Str) (s' : List Token), s = str.tokens ++ s' ∧ x = str.contents ∧
      b = encodeAll s' := by
  unfold readChunks at hread
  split at hread
  · next k d hhead =>
    have hbytes : readBytes (encodeAll s) = some (x, b) := by
      rw [readBytes, hhead]
      exact hread
    obtain ⟨w, s', rfl, rfl⟩ := readBytes_encodeAll h hbytes
    exact ⟨.whole w x, s', rfl, rfl, rfl⟩
  · next d hhead =>
    obtain ⟨⟨bs, r⟩, hbs, heq⟩ := Option.map_eq_some_iff.mp hread
    obtain ⟨rfl, rfl⟩ := Prod.mk.inj heq
    obtain ⟨token, s₁, rfl, -, hhead⟩ := readHead_encodeAll h hhead
    cases token with
    | beginBytes =>
      obtain rfl : d = encodeAll s₁ := by
        simpa [Token.major, Token.arg, Token.payload] using hhead
      obtain ⟨cs, s', rfl, rfl, rfl⟩ :=
        readToStop_readBytes_encodeAll (fun token ht => h token (by simp [ht])) hbs
      exact ⟨.chunks cs, s', by simp [Str.tokens], rfl, rfl⟩
    | _ => simp [Token.major, Token.arg] at hhead
  · simp at hread

/-- Tokens take up bytes. -/
lemma eq_nil_of_encodeAll (h : ∀ token ∈ s, token.Fits) (heq : encodeAll s = []) : s = [] := by
  cases s with
  | nil => rfl
  | cons token s =>
    have hread := Token.readHead_encode (h token (by simp)) (encodeAll s)
    rw [← encodeAll_cons, heq] at hread
    simp [readHead] at hread

/-! ### Reading back -/

lemma readUInt_encode {w : Width} {n : ℕ} (h : (Token.uint w n).Fits) (b : Bytes) :
    readUInt ((Token.uint w n).encode ++ b) = some (UInt64.ofNat n, b) := by
  rw [readUInt, Token.readHead_encode h]
  rfl

lemma readBytes_encode {w : Width} {x : Bytes} (h : (Token.bytes w x).Fits) (b : Bytes) :
    readBytes ((Token.bytes w x).encode ++ b) = some (x, b) := by
  rw [readBytes, Token.readHead_encode h]
  exact readContents_append b x

lemma readArray_encode {w : Width} {n : ℕ} (h : (Token.array w n).Fits) (b : Bytes) :
    readArray ((Token.array w n).encode ++ b) = some (some n, b) := by
  rw [readArray, Token.readHead_encode h]
  rfl

lemma readTag_encode {w : Width} {n : ℕ} (h : (Token.tag w n).Fits) (b : Bytes) :
    readTag ((Token.tag w n).encode ++ b) = some (n, b) := by
  rw [readTag, Token.readHead_encode h]
  rfl

/-- A token that is not a break does not start with the break byte. -/
lemma Token.encode_ne_break (h : token.Fits) (hstop : token ≠ .stop) (b b' : Bytes) :
    token.encode ++ b ≠ 0xff :: b' := by
  intro heq
  have hhead : readHead (token.encode ++ b) = some (7, none, b') := by rw [heq]; rfl
  rw [Token.readHead_encode h] at hhead
  cases token <;> simp_all [Token.major]

lemma Token.reads_bytes {w : Width} {x : Bytes} (h : (Token.bytes w x).Fits) :
    Reads readBytes (Token.bytes w x).encode x := by
  have hbreak := Token.encode_ne_break h (by simp)
  refine ⟨readBytes_encode h, fun hnil => ?_, hbreak⟩
  exact hbreak [0xff] [] (by rw [hnil]; rfl)

lemma readChunks_tokens {str : Str} (h : ∀ token ∈ str.tokens, token.Fits) (b : Bytes) :
    readChunks (encodeAll str.tokens ++ b) = some (str.contents, b) := by
  cases str with
  | whole w x =>
    have hx : (Token.bytes w x).Fits := h _ (by simp [Str.tokens])
    rw [Str.tokens, encodeAll_cons, encodeAll_nil, List.append_nil, readChunks,
      Token.readHead_encode hx]
    exact readContents_append b x
  | chunks cs =>
    have hcs : ∀ c ∈ cs, Reads readBytes (Token.bytes c.1 c.2).encode c.2 := by
      refine fun c hc => Token.reads_bytes (h _ ?_)
      simp only [Str.tokens, List.mem_append, List.mem_cons, List.mem_map]
      exact Or.inl (Or.inr ⟨c, hc, rfl⟩)
    have hread := readChunks_beginBytes (f := Prod.snd) b hcs
    simpa [Str.tokens, encodeAll, Str.contents, List.flatMap_map, Token.encode] using hread

end Lib.Cbor

namespace Lib.Plutus

open Cbor

/-! ## Trees -/

/-- How an array or a map is framed. -/
inductive Framing where
  | definite (w : Width)
  | indefinite
deriving DecidableEq

namespace Framing

/-- The beginning of an array of so many items. -/
def array : Framing → ℕ → Token
  | definite w, n => .array w n
  | indefinite, _ => .beginArray

/-- The beginning of a map of so many entries. -/
def map : Framing → ℕ → Token
  | definite w, n => .map w n
  | indefinite, _ => .beginMap

/-- What the head says of the number of items. -/
def count : Framing → ℕ → Option ℕ
  | definite _, n => some n
  | indefinite, _ => none

/-- What comes after the items. -/
def close : Framing → List Token
  | definite _ => []
  | indefinite => [.stop]

lemma readArray_array (f : Framing) {n : ℕ} (h : (f.array n).Fits) (b : Bytes) :
    readArray ((f.array n).encode ++ b) = some (f.count n, b) := by
  cases f with
  | definite w => exact readArray_encode h b
  | indefinite => rfl

end Framing

/-- The tag of a constructor of one of the lower indexes. -/
def constrTag (i : ℕ) : ℕ := if i < 7 then 121 + i else 1280 + (i - 7)

/-- An encoding of a data value. -/
inductive Encoding where
  | uint (w : Width) (n : ℕ)
  | nint (w : Width) (n : ℕ)
  | bignum (w : Width) (negative : Bool) (str : Str)
  | bytes (str : Str)
  | list (f : Framing) (items : List Encoding)
  | map (f : Framing) (entries : List (Encoding × Encoding))
  | constr (w : Width) (i : Fin 128) (f : Framing) (fields : List Encoding)
  | anyConstr (w w' w'' : Width) (i : ℕ) (f : Framing) (fields : List Encoding)

namespace Encoding

mutual
/-- The tokens of an encoding, in order. -/
def tokens : Encoding → List Token
  | uint w n => [.uint w n]
  | nint w n => [.nint w n]
  | bignum w negative str => .tag w (if negative then 3 else 2) :: str.tokens
  | bytes str => str.tokens
  | list f items => f.array items.length :: (tokensAll items ++ f.close)
  | map f entries => f.map entries.length :: (tokensEntries entries ++ f.close)
  | constr w i f fields =>
    .tag w (constrTag i) :: f.array fields.length :: (tokensAll fields ++ f.close)
  | anyConstr w w' w'' i f fields =>
    .tag w 102 :: .array w' 2 :: .uint w'' i :: f.array fields.length ::
      (tokensAll fields ++ f.close)

/-- The tokens of items, one after another. -/
def tokensAll : List Encoding → List Token
  | [] => []
  | e :: es => tokens e ++ tokensAll es

/-- The tokens of entries, each a key and a value. -/
def tokensEntries : List (Encoding × Encoding) → List Token
  | [] => []
  | (k, v) :: es => tokens k ++ tokens v ++ tokensEntries es
end

mutual
/-- The data value that is encoded. -/
def data : Encoding → Data
  | uint _ n => .int n
  | nint _ n => .int (-1 - n)
  | bignum _ negative str =>
    .integer (if negative then -1 - unbe str.contents else unbe str.contents) true
  | bytes str => .bytes str.contents
  | list _ items => .list (dataAll items)
  | map _ entries => .map (dataEntries entries)
  | constr _ i _ fields => .constr i (dataAll fields)
  | anyConstr _ _ _ i _ fields => .constr i (dataAll fields)

/-- The data values of items. -/
def dataAll : List Encoding → List Data
  | [] => []
  | e :: es => data e :: dataAll es

/-- The data values of entries. -/
def dataEntries : List (Encoding × Encoding) → List (Data × Data)
  | [] => []
  | (k, v) :: es => (data k, data v) :: dataEntries es
end

/-- The bytes of an encoding. -/
def encode (e : Encoding) : Bytes := encodeAll e.tokens

/-- Every argument fits the width that it is written at. -/
def Valid (e : Encoding) : Prop := ∀ token ∈ e.tokens, token.Fits

/-- The tokens of an array of encodings. -/
def body (f : Framing) (es : List Encoding) : List Token :=
  f.array es.length :: (tokensAll es ++ f.close)

variable {w : Width} {i : Fin 128} {f : Framing} {es : List Encoding}

@[simp] lemma tokens_list : (list f es).tokens = body f es := rfl

@[simp] lemma tokens_constr :
    (constr w i f es).tokens = .tag w (constrTag i) :: body f es := rfl

@[simp] lemma length_dataAll (es : List Encoding) : (dataAll es).length = es.length := by
  induction es with
  | nil => rfl
  | cons e es ih => rw [dataAll, List.length_cons, List.length_cons, ih]

/-! ### What is opened is closed -/

lemma balance_array_close (f : Framing) (n : ℕ) :
    (f.array n).balance + balance f.close = 0 := by
  cases f <;> rfl

lemma balance_map_close (f : Framing) (n : ℕ) : (f.map n).balance + balance f.close = 0 := by
  cases f <;> rfl

mutual
/-- What an encoding opens, it closes. -/
lemma balance_tokens : ∀ e : Encoding, balance e.tokens = 0
  | uint _ _ | nint _ _ => rfl
  | bignum w negative str => by
    rw [tokens, balance_cons, Str.balance_tokens]
    rfl
  | bytes str => Str.balance_tokens str
  | list f items => by
    have hclose := balance_array_close f items.length
    simp only [tokens, balance_cons, balance_append, balance_tokensAll items]
    omega
  | map f entries => by
    have hclose := balance_map_close f entries.length
    simp only [tokens, balance_cons, balance_append, balance_tokensEntries entries]
    omega
  | constr w i f fields => by
    have hclose := balance_array_close f fields.length
    have htag : (Token.tag w (constrTag i)).balance = 0 := rfl
    simp only [tokens, balance_cons, balance_append, balance_tokensAll fields, htag]
    omega
  | anyConstr w w' w'' i f fields => by
    have hclose := balance_array_close f fields.length
    have hhead : balance [.tag w 102, .array w' 2, .uint w'' i] = 0 := rfl
    simp only [tokens, balance_cons, balance_nil, balance_append, balance_tokensAll fields]
      at hhead ⊢
    omega

lemma balance_tokensAll : ∀ es : List Encoding, balance (tokensAll es) = 0
  | [] => rfl
  | e :: es => by
    rw [tokensAll, balance_append, balance_tokens e, balance_tokensAll es, add_zero]

lemma balance_tokensEntries : ∀ es : List (Encoding × Encoding), balance (tokensEntries es) = 0
  | [] => rfl
  | (k, v) :: es => by
    rw [tokensEntries, balance_append, balance_append, balance_tokens k, balance_tokens v,
      balance_tokensEntries es, add_zero, add_zero]
end

lemma balance_body (f : Framing) (es : List Encoding) : balance (body f es) = 0 :=
  balance_tokens (list f es)

/-- An encoding starts with a token that is not a break. -/
lemma tokens_eq_cons (e : Encoding) : ∃ token s, e.tokens = token :: s ∧ token ≠ .stop := by
  cases e with
  | bytes str => cases str <;> simp [tokens, Str.tokens]
  | list f items => cases f <;> simp [tokens, Framing.array]
  | map f entries => cases f <;> simp [tokens, Framing.map]
  | _ => simp [tokens]

/-- What starts with an encoding does not start with the break byte. -/
lemma encodeAll_ne_break {e : Encoding} {s : List Token} (h : ∀ token ∈ e.tokens, token.Fits)
    (b : Bytes) : encodeAll (e.tokens ++ s) ≠ 0xff :: b := by
  obtain ⟨token, s', htokens, hstop⟩ := e.tokens_eq_cons
  have hfits : token.Fits := h token (by simp [htokens])
  rw [htokens, List.cons_append, encodeAll_cons]
  exact Token.encode_ne_break hfits hstop _ _

@[simp] lemma tokensAll_singleton (e : Encoding) : tokensAll [e] = e.tokens :=
  List.append_nil e.tokens

lemma body_append (f : Framing) (es : List Encoding) (s : List Token) :
    body f es ++ s = f.array es.length :: (tokensAll es ++ (f.close ++ s)) := by
  simp [body]

lemma encodeAll_body_indefinite (es : List Encoding) :
    encodeAll (body .indefinite es) = framed (encodeAll (tokensAll es)) := by
  simp [body, framed, Framing.array, Framing.close, Token.encode]

/-- No encoding starts with a break. -/
lemma eq_nil_of_tokensAll {s s' : List Token} (h : tokensAll es ++ s = .stop :: s') : es = [] := by
  cases es with
  | nil => rfl
  | cons e es =>
    obtain ⟨token, s'', htokens, hstop⟩ := e.tokens_eq_cons
    rw [tokensAll, htokens] at h
    exact (hstop (List.cons.inj h).1).elim

lemma definite_of_rest (h : tokensAll es ++ f.close = []) : es = [] ∧ ∃ w, f = .definite w := by
  obtain ⟨hes, hclose⟩ := List.append_eq_nil_iff.mp h
  constructor
  · cases es with
    | nil => rfl
    | cons e es =>
      obtain ⟨token, s', htokens, -⟩ := e.tokens_eq_cons
      simp [tokensAll, htokens] at hes
  · cases f with
    | definite w => exact ⟨w, rfl⟩
    | indefinite => simp [Framing.close] at hclose

/-! ### What an encoding is, by its first token -/

section First

variable {e : Encoding} {s s' : List Token} {n : ℕ}

lemma eq_uint (h : e.tokens ++ s = .uint w n :: s') : e = uint w n ∧ s = s' := by
  cases e with
  | uint w' n' => simpa [tokens, and_assoc] using h
  | bytes str => cases str <;> simp [tokens, Str.tokens] at h
  | list f items => cases f <;> simp [tokens, Framing.array] at h
  | map f entries => cases f <;> simp [tokens, Framing.map] at h
  | _ => simp [tokens] at h

lemma eq_bytes {str : Str} (h : e.tokens ++ s = str.tokens ++ s') : ∃ str, e = bytes str := by
  cases e with
  | bytes str' => exact ⟨str', rfl⟩
  | list f items => cases f <;> cases str <;> simp [tokens, Str.tokens, Framing.array] at h
  | map f entries => cases f <;> cases str <;> simp [tokens, Str.tokens, Framing.map] at h
  | _ => cases str <;> simp [tokens, Str.tokens] at h

lemma eq_list (h : e.tokens ++ s = f.array n :: s') : ∃ f es, e = list f es := by
  cases e with
  | list f' es => exact ⟨f', es, rfl⟩
  | bytes str => cases f <;> cases str <;> simp [tokens, Str.tokens, Framing.array] at h
  | map f' entries => cases f <;> cases f' <;> simp [tokens, Framing.array, Framing.map] at h
  | _ => cases f <;> simp [tokens, Framing.array] at h

/-- An item with the tag of a constructor is one. -/
lemma eq_constr (hn : 121 ≤ n) (h : e.tokens ++ s = .tag w n :: s') :
    ∃ i f es, e = constr w i f es ∧ n = constrTag i ∧ s' = body f es ++ s := by
  cases e with
  | constr w' i f es =>
    simp only [tokens_constr, List.cons_append, List.cons.injEq, Token.tag.injEq] at h
    obtain ⟨⟨rfl, rfl⟩, rfl⟩ := h
    exact ⟨i, f, es, rfl, rfl, rfl⟩
  | bytes str => cases str <;> simp [tokens, Str.tokens] at h
  | list f items => cases f <;> simp [tokens, Framing.array] at h
  | map f entries => cases f <;> simp [tokens, Framing.map] at h
  | bignum w' negative str =>
    simp only [tokens, List.cons_append, List.cons.injEq, Token.tag.injEq] at h
    split_ifs at h <;> omega
  | anyConstr w w' w'' i f fields =>
    simp only [tokens, List.cons_append, List.cons.injEq, Token.tag.injEq] at h
    omega
  | _ => simp [tokens] at h

end First

end Encoding

end Lib.Plutus
