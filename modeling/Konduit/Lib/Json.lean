import Mathlib.Tactic.NormNum
import Konduit.Lib.Bytes

/-!
# JSON

Documents as a parser hands them over, and what derived deserialisers make of them: a
structure is an object with each field once, or an array of its fields in order.  Byte
strings are hexadecimal strings.
-/

namespace Lib

/-- A JSON document.  Numbers that are not written as whole numbers stay as text. -/
inductive Json where
  | null
  | bool (b : Bool)
  | int (n : ℤ)
  | decimal (text : String)
  | str (s : String)
  | arr (items : List Json)
  | obj (entries : List (String × Json))

namespace Json

/-! ## Readers -/

/-- A natural number below a bound. -/
def natBelow (bound : ℕ) : Json → Option ℕ
  | int (.ofNat n) => if n < bound then some n else none
  | _ => none

/-- A word. -/
def u64 (j : Json) : Option UInt64 := (j.natBelow (2 ^ 64)).map UInt64.ofNat

/-- An array, read item by item. -/
def list {α : Type} (item : Json → Option α) : Json → Option (List α)
  | arr items => items.mapM item
  | _ => none

/-- The value of a field; there must be one, and only one. -/
def field (entries : List (String × Json)) (name : String) : Option Json :=
  match entries.filter fun e => e.1 = name with
  | [(_, value)] => some value
  | _ => none

/-- The fields of a structure, in order.  Further entries of an object are ignored. -/
def fields (names : List String) : Json → Option (List Json)
  | arr items => if items.length = names.length then some items else none
  | obj entries => names.mapM (field entries)
  | _ => none

/-- The fields of a structure that allows no further entries. -/
def strictFields (names : List String) : Json → Option (List Json)
  | obj entries => if entries.all fun e => e.1 ∈ names then names.mapM (field entries) else none
  | j => j.fields names

/-- The value of a hexadecimal digit of either case. -/
def hexDigit (c : Char) : Option ℕ :=
  if '0' ≤ c ∧ c ≤ '9' then some (c.toNat - 48)
  else if 'a' ≤ c ∧ c ≤ 'f' then some (c.toNat - 87)
  else if 'A' ≤ c ∧ c ≤ 'F' then some (c.toNat - 55)
  else none

/-- The bytes that the digits spell, two for each byte. -/
def unhex : List Char → Option Bytes
  | [] => some []
  | hi :: lo :: cs => do
    let hi ← hexDigit hi
    let lo ← hexDigit lo
    let b ← unhex cs
    return UInt8.ofNat (hi * 16 + lo) :: b
  | [_] => none

/-- A byte string of a fixed length. -/
def hexN (n : ℕ) : Json → Option (BytesN n)
  | str s => (unhex s.toList).bind (BytesN.ofBytes n)
  | _ => none

/-! ## Writers -/

/-- A word, as a whole number. -/
def ofU64 (n : UInt64) : Json := int n.toNat

/-- The lower-case digit of a value. -/
def digitChar (d : ℕ) : Char := if d < 10 then Char.ofNat (d + 48) else Char.ofNat (d + 87)

/-- The digits of bytes, two for each byte. -/
def hexChars (b : Bytes) : List Char :=
  b.flatMap fun x => [digitChar (x.toNat / 16), digitChar (x.toNat % 16)]

/-- Bytes, as a hexadecimal string. -/
def ofBytes (b : Bytes) : Json := str (String.ofList (hexChars b))

/-! ## Reading back what was written -/

lemma natBelow_int {n bound : ℕ} (h : n < bound) : (int n).natBelow bound = some n :=
  if_pos h

@[simp] lemma u64_ofU64 (n : UInt64) : (ofU64 n).u64 = some n := by
  rw [u64, ofU64, natBelow_int n.toNat_lt, Option.map_some, UInt64.ofNat_toNat]

lemma list_arr {α : Type} {item : Json → Option α} {write : α → Json}
    (h : ∀ a, item (write a) = some a) (as : List α) :
    list item (arr (as.map write)) = some as := by
  rw [list]
  induction as with
  | nil => rfl
  | cons a as ih => simp [List.mapM_cons, h, ih]

lemma hexDigit_digitChar : ∀ d < 16, hexDigit (digitChar d) = some d := by decide

lemma unhex_hexChars (b : Bytes) : unhex (hexChars b) = some b := by
  induction b with
  | nil => rfl
  | cons x b ih =>
    have hx := x.toNat_lt
    have hhi := hexDigit_digitChar (x.toNat / 16) (by omega)
    have hlo := hexDigit_digitChar (x.toNat % 16) (by omega)
    have hx' : x.toNat / 16 * 16 + x.toNat % 16 = x.toNat := by omega
    have hcons : hexChars (x :: b) =
        digitChar (x.toNat / 16) :: digitChar (x.toNat % 16) :: hexChars b := rfl
    rw [hcons, unhex, hhi, hlo, ih]
    simp only [Option.bind_eq_bind, Option.bind_some, Option.pure_def, hx', UInt8.ofNat_toNat]

@[simp] lemma hexN_ofBytes {n : ℕ} (b : BytesN n) : hexN n (ofBytes b.1) = some b := by
  simp [hexN, ofBytes, unhex_hexChars]

end Json

end Lib
