import Mathlib.Tactic.Ring
import Mathlib.Tactic.NormNum
import Konduit.Lib.Bytes

/-!
# CBOR heads, items and streaming readers

A CBOR item starts with a head: a major type and an argument, written in 1, 2, 3, 5 or 9
bytes by the size of the argument.  A reader takes the unread input and returns what it
read with the rest.  Everything written by an encoder here is read back from in front of
any rest (`readHead_head` and the lemmas after it).
-/

namespace Lib.Cbor

/-! ## Big-endian integers -/

/-- The last `k` bytes of an integer, the most significant first. -/
def be : ℕ → ℕ → Bytes
  | 0, _ => []
  | k + 1, n => be k (n / 256) ++ [UInt8.ofNat n]

/-- The integer that a big-endian byte string denotes. -/
def unbe (b : Bytes) : ℕ := b.foldl (fun a x => a * 256 + x.toNat) 0

@[simp] lemma length_be (k n : ℕ) : (be k n).length = k := by
  induction k generalizing n with
  | zero => rfl
  | succ k ih => simp [be, ih]

lemma unbe_be {k n : ℕ} (h : n < 256 ^ k) : unbe (be k n) = n := by
  induction k generalizing n with
  | zero => simp at h; simp [be, unbe, h]
  | succ k ih =>
    have hdiv : n / 256 < 256 ^ k := by
      rw [Nat.div_lt_iff_lt_mul (by norm_num)]
      simpa [pow_succ] using h
    have hlast : (UInt8.ofNat n).toNat = n % 256 := by simp
    simp only [be, unbe, List.foldl_append, List.foldl_cons, List.foldl_nil, hlast]
    rw [show (be k (n / 256)).foldl (fun a x => a * 256 + x.toNat) 0 = n / 256 from ih hdiv]
    omega

/-! ## Heads -/

/-- The head of an item of a major type with an argument below `2 ^ 64`. -/
def head (major n : ℕ) : Bytes :=
  if n < 24 then [UInt8.ofNat (major * 32 + n)]
  else if n < 256 ^ 1 then UInt8.ofNat (major * 32 + 24) :: be 1 n
  else if n < 256 ^ 2 then UInt8.ofNat (major * 32 + 25) :: be 2 n
  else if n < 256 ^ 4 then UInt8.ofNat (major * 32 + 26) :: be 4 n
  else UInt8.ofNat (major * 32 + 27) :: be 8 n

/-- Read an argument of `k` bytes. -/
def readArg (k : ℕ) (d : Bytes) : Option (ℕ × Bytes) :=
  if k ≤ d.length then some (unbe (d.take k), d.drop k) else none

/-- Read a head: its major type, its argument unless the length is indefinite, and the
rest of the input. -/
def readHead : Bytes → Option (ℕ × Option ℕ × Bytes)
  | [] => none
  | b :: d =>
    let major := b.toNat / 32
    let info := b.toNat % 32
    if info < 24 then some (major, some info, d)
    else if info = 24 then (readArg 1 d).map fun (n, d) => (major, some n, d)
    else if info = 25 then (readArg 2 d).map fun (n, d) => (major, some n, d)
    else if info = 26 then (readArg 4 d).map fun (n, d) => (major, some n, d)
    else if info = 27 then (readArg 8 d).map fun (n, d) => (major, some n, d)
    else if info = 31 then some (major, none, d)
    else none

lemma readArg_be {k n : ℕ} (h : n < 256 ^ k) (d : Bytes) :
    readArg k (be k n ++ d) = some (n, d) := by
  simp [readArg, unbe_be h]

lemma toNat_first {major : ℕ} (info : ℕ) (hm : major < 8) (hi : info < 32) :
    (UInt8.ofNat (major * 32 + info)).toNat / 32 = major ∧
      (UInt8.ofNat (major * 32 + info)).toNat % 32 = info := by
  rw [UInt8.toNat_ofNat_of_lt' (by norm_num; omega)]
  omega

/-- How many bytes the argument of a head takes; with none, it is in the first byte. -/
inductive Width where
  | zero
  | one
  | two
  | four
  | eight
deriving DecidableEq

/-- The arguments of a width are below its bound. -/
def Width.bound : Width → ℕ
  | zero => 24
  | one => 256 ^ 1
  | two => 256 ^ 2
  | four => 256 ^ 4
  | eight => 256 ^ 8

lemma Width.bound_le (w : Width) : w.bound ≤ 256 ^ 8 := by cases w <;> decide

/-- The head of an item whose argument is written at a width, shortest or not. -/
def headAt (w : Width) (major n : ℕ) : Bytes :=
  match w with
  | .zero => [UInt8.ofNat (major * 32 + n)]
  | .one => UInt8.ofNat (major * 32 + 24) :: be 1 n
  | .two => UInt8.ofNat (major * 32 + 25) :: be 2 n
  | .four => UInt8.ofNat (major * 32 + 26) :: be 4 n
  | .eight => UInt8.ofNat (major * 32 + 27) :: be 8 n

/-- A head at any width is read back from in front of any input. -/
lemma readHead_headAt {w : Width} {major n : ℕ} (hm : major < 8) (hn : n < w.bound) (d : Bytes) :
    readHead (headAt w major n ++ d) = some (major, some n, d) := by
  cases w with
  | zero =>
    have hn : n < 24 := hn
    obtain ⟨hq, hr⟩ := toNat_first n hm (by omega)
    simp only [headAt, List.singleton_append, readHead, hq, hr, if_pos hn]
  | one =>
    obtain ⟨hq, hr⟩ := toNat_first 24 hm (by norm_num)
    simp only [headAt, List.cons_append, readHead, hq, hr, readArg_be hn]
    rfl
  | two =>
    obtain ⟨hq, hr⟩ := toNat_first 25 hm (by norm_num)
    simp only [headAt, List.cons_append, readHead, hq, hr, readArg_be hn]
    rfl
  | four =>
    obtain ⟨hq, hr⟩ := toNat_first 26 hm (by norm_num)
    simp only [headAt, List.cons_append, readHead, hq, hr, readArg_be hn]
    rfl
  | eight =>
    obtain ⟨hq, hr⟩ := toNat_first 27 hm (by norm_num)
    simp only [headAt, List.cons_append, readHead, hq, hr, readArg_be hn]
    rfl

/-- An encoder's head is one at the shortest width. -/
lemma head_eq_headAt {major n : ℕ} (hn : n < 256 ^ 8) :
    ∃ w : Width, n < w.bound ∧ head major n = headAt w major n := by
  rw [head]
  split_ifs with h₀ h₁ h₂ h₃
  · exact ⟨.zero, h₀, rfl⟩
  · exact ⟨.one, h₁, rfl⟩
  · exact ⟨.two, h₂, rfl⟩
  · exact ⟨.four, h₃, rfl⟩
  · exact ⟨.eight, hn, rfl⟩

/-- A head is read back from in front of any input. -/
lemma readHead_head {major n : ℕ} (hm : major < 8) (hn : n < 256 ^ 8) (d : Bytes) :
    readHead (head major n ++ d) = some (major, some n, d) := by
  obtain ⟨w, hw, hhead⟩ := @head_eq_headAt major n hn
  rw [hhead]
  exact readHead_headAt hm hw d

/-- No head with an argument starts with the break byte. -/
lemma head_ne_break {major n : ℕ} (hm : major < 8) (d d' : Bytes) :
    head major n ++ d ≠ 0xff :: d' := by
  have key : ∀ info < 28, UInt8.ofNat (major * 32 + info) ≠ 0xff := by
    intro info hi h
    have h₁ := congrArg (fun b => b.toNat % 32) h
    simp only [(toNat_first info hm (by omega)).2] at h₁
    have h₂ : (0xff : UInt8).toNat % 32 = 31 := by decide
    omega
  rw [head]
  intro h
  split_ifs at h
  all_goals
    simp only [List.cons_append, List.nil_append, List.cons.injEq] at h
    exact key _ (by omega) h.1

lemma head_ne_nil (major n : ℕ) : head major n ≠ [] := by
  rw [head]
  split_ifs <;> simp

/-! ## Items -/

/-- An unsigned integer. -/
def uint (n : UInt64) : Bytes := head 0 n.toNat

/-- An unsigned integer takes one, two, three, five or nine bytes. -/
lemma length_uint (n : UInt64) :
    (uint n).length =
      if n.toNat < 24 then 1
      else if n.toNat < 2 ^ 8 then 2
      else if n.toNat < 2 ^ 16 then 3
      else if n.toNat < 2 ^ 32 then 5
      else 9 := by
  simp only [uint, head, apply_ite List.length, List.length_cons, List.length_nil, length_be,
    Nat.reducePow, Nat.reduceAdd]

/-- A byte string of definite length. -/
def bytes (b : Bytes) : Bytes := head 2 b.length ++ b

/-- A text string, given by its UTF-8 bytes. -/
def text (b : Bytes) : Bytes := head 3 b.length ++ b

/-- The head of an array of definite length. -/
def array (n : ℕ) : Bytes := head 4 n

/-- The start of an array of indefinite length. -/
def beginArray : Bytes := [0x9f]

/-- The start of a byte string in chunks. -/
def beginBytes : Bytes := [0x5f]

/-- The end of an item of indefinite length. -/
def stop : Bytes := [0xff]

/-- A tag in front of an item. -/
def tag (n : ℕ) : Bytes := head 6 n

/-- A boolean, as its simple value. -/
def bool (b : Bool) : Bytes := [if b then 0xf5 else 0xf4]

/-- The simple value null. -/
def null : Bytes := [0xf6]

/-! ## Readers -/

/-- An unsigned integer of 64 bits. -/
def readUInt (d : Bytes) : Option (UInt64 × Bytes) :=
  match readHead d with
  | some (0, some n, d) => some (UInt64.ofNat n, d)
  | _ => none

/-- The contents of a string of definite length. -/
def readContents (n : ℕ) (d : Bytes) : Option (Bytes × Bytes) :=
  if n ≤ d.length then some (d.take n, d.drop n) else none

/-- A byte string of definite length. -/
def readBytes (d : Bytes) : Option (Bytes × Bytes) :=
  match readHead d with
  | some (2, some n, d) => readContents n d
  | _ => none

/-- A text string of definite length. -/
def readText (d : Bytes) : Option (Bytes × Bytes) :=
  match readHead d with
  | some (3, some n, d) => readContents n d
  | _ => none

/-- An array head: the length, if it is definite. -/
def readArray (d : Bytes) : Option (Option ℕ × Bytes) :=
  match readHead d with
  | some (4, n, d) => some (n, d)
  | _ => none

/-- A tag, in front of the item that it tags. -/
def readTag (d : Bytes) : Option (ℕ × Bytes) :=
  match readHead d with
  | some (6, some n, d) => some (n, d)
  | _ => none

/-- A boolean. -/
def readBool : Bytes → Option (Bool × Bytes)
  | 0xf4 :: d => some (false, d)
  | 0xf5 :: d => some (true, d)
  | _ => none

/-- The end of an item of indefinite length. -/
def readStop : Bytes → Option (Unit × Bytes)
  | 0xff :: d => some ((), d)
  | _ => none

/-- `n` items one after another. -/
def readMany {α : Type} (item : Bytes → Option (α × Bytes)) :
    ℕ → Bytes → Option (List α × Bytes)
  | 0, d => some ([], d)
  | n + 1, d => do
    let (x, d) ← item d
    let (xs, d) ← readMany item n d
    return (x :: xs, d)

/-- Items up to the break byte; the fuel bounds their number. -/
def readToStop {α : Type} (item : Bytes → Option (α × Bytes)) :
    ℕ → Bytes → Option (List α × Bytes)
  | 0, _ => none
  | _ + 1, 0xff :: d => some ([], d)
  | fuel + 1, d => do
    let (x, d) ← item d
    let (xs, d) ← readToStop item fuel d
    return (x :: xs, d)

/-- The items of an array of either framing.  An item takes at least one byte, so the
length of the input is fuel enough. -/
def readItems {α : Type} (item : Bytes → Option (α × Bytes)) (d : Bytes) :
    Option (List α × Bytes) := do
  let (n, d) ← readArray d
  match n with
  | some n => readMany item n d
  | none => readToStop item (d.length + 1) d

/-- A byte string of either framing. -/
def readChunks (d : Bytes) : Option (Bytes × Bytes) :=
  match readHead d with
  | some (2, some n, d) => readContents n d
  | some (2, none, d) => (readToStop readBytes (d.length + 1) d).map fun (bs, d) => (bs.flatten, d)
  | _ => none

mutual
/-- Skip a number of items; the fuel bounds the heads met. -/
def skipMany : ℕ → ℕ → Bytes → Option Bytes
  | _, 0, d => some d
  | 0, _ + 1, _ => none
  | fuel + 1, n + 1, d =>
    match readHead d with
    | some (2, some k, d) | some (3, some k, d) =>
      if k ≤ d.length then skipMany fuel n (d.drop k) else none
    | some (4, some k, d) => skipMany fuel (n + k) d
    | some (5, some k, d) => skipMany fuel (n + 2 * k) d
    | some (6, some _, d) => skipMany fuel (n + 1) d
    | some (_, some _, d) => skipMany fuel n d
    | some (_, none, d) => (skipToStop fuel d).bind (skipMany fuel n)
    | none => none

/-- Skip the items up to the break byte. -/
def skipToStop : ℕ → Bytes → Option Bytes
  | 0, _ => none
  | _ + 1, 0xff :: d => some d
  | fuel + 1, d => (skipMany fuel 1 d).bind (skipToStop fuel)
end

/-- The item that follows, unless it is null. -/
def readOptional {α : Type} (item : Bytes → Option (α × Bytes)) :
    Bytes → Option (Option α × Bytes)
  | 0xf6 :: d => some (none, d)
  | d => (item d).map fun (x, d) => (some x, d)

/-- A field of a derived structure, from an array with a number of items left or from one up
to the break byte.  A missing field may have a default. -/
def readField {α : Type} (item : Bytes → Option (α × Bytes)) (missing : Option α)
    (left : Option ℕ) (d : Bytes) : Option (α × Option ℕ × Bytes) :=
  match left with
  | some 0 => missing.map fun x => (x, some 0, d)
  | some (n + 1) => (item d).map fun (x, d) => (x, some n, d)
  | none =>
    if d.head? = some 0xff then missing.map fun x => (x, none, d)
    else (item d).map fun (x, d) => (x, none, d)

/-- Skip what a derived structure does not read. -/
def readRest (left : Option ℕ) (d : Bytes) : Option (Unit × Bytes) :=
  match left with
  | some n => (skipMany (d.length + 1) n d).map fun d => ((), d)
  | none => (skipToStop (d.length + 1) d).map fun d => ((), d)

/-! ## Reading back what was written -/

variable (d : Bytes)

@[simp] lemma readUInt_uint (n : UInt64) : readUInt (uint n ++ d) = some (n, d) := by
  simp [readUInt, uint, readHead_head (show (0 : ℕ) < 8 by norm_num) (by simpa using n.toNat_lt)]

lemma readContents_append (b : Bytes) : readContents b.length (b ++ d) = some (b, d) := by
  simp [readContents]

lemma readBytes_bytes {b : Bytes} (hb : b.length < 256 ^ 8) :
    readBytes (bytes b ++ d) = some (b, d) := by
  rw [bytes, List.append_assoc, readBytes, readHead_head (by norm_num) hb]
  exact readContents_append d b

lemma readChunks_bytes {b : Bytes} (hb : b.length < 256 ^ 8) :
    readChunks (bytes b ++ d) = some (b, d) := by
  rw [bytes, List.append_assoc, readChunks, readHead_head (by norm_num) hb]
  exact readContents_append d b

lemma readArray_array {n : ℕ} (hn : n < 256 ^ 8) :
    readArray (array n ++ d) = some (some n, d) := by
  simp [readArray, array, readHead_head (show (4 : ℕ) < 8 by norm_num) hn]

@[simp] lemma readArray_beginArray : readArray (beginArray ++ d) = some (none, d) := rfl

lemma readTag_tag {n : ℕ} (hn : n < 256 ^ 8) : readTag (tag n ++ d) = some (n, d) := by
  simp [readTag, tag, readHead_head (show (6 : ℕ) < 8 by norm_num) hn]

@[simp] lemma readBool_bool (b : Bool) : readBool (bool b ++ d) = some (b, d) := by
  cases b <;> rfl

@[simp] lemma readStop_stop : readStop (stop ++ d) = some ((), d) := rfl

lemma eq_of_readStop {d : Bytes} {r : Unit × Bytes} (h : readStop d = some r) :
    d = 0xff :: r.2 := by
  unfold readStop at h
  split at h
  · rw [← Option.some.inj h]
  · simp at h

@[simp] lemma readField_succ {α : Type} (item : Bytes → Option (α × Bytes)) (missing : Option α)
    (n : ℕ) : readField item missing (some (n + 1)) d =
      (item d).map fun (x, d) => (x, some n, d) := rfl

/-- A derived field that has no default was read. -/
lemma readField_eq_some {α : Type} {item : Bytes → Option (α × Bytes)} {left : Option ℕ}
    {d : Bytes} {r : α × Option ℕ × Bytes} (h : readField item none left d = some r) :
    ∃ d', item d = some (r.1, d') := by
  unfold readField at h
  split at h
  · simp at h
  · obtain ⟨x, hx, rfl⟩ := Option.map_eq_some_iff.mp h
    exact ⟨x.2, hx⟩
  · split_ifs at h
    · simp at h
    · obtain ⟨x, hx, rfl⟩ := Option.map_eq_some_iff.mp h
      exact ⟨x.2, hx⟩

/-- Items up to the break byte: none if it comes first, or one and the others. -/
lemma readToStop_eq_some {α : Type} {item : Bytes → Option (α × Bytes)} {fuel : ℕ} {xs : List α}
    {d d' : Bytes} (h : readToStop item (fuel + 1) d = some (xs, d')) :
    d = 0xff :: d' ∧ xs = [] ∨
      (∀ r, d ≠ 0xff :: r) ∧ ∃ x r xs', item d = some (x, r) ∧
        readToStop item fuel r = some (xs', d') ∧ xs = x :: xs' := by
  by_cases hd : ∃ r, d = 0xff :: r
  · obtain ⟨r, rfl⟩ := hd
    obtain ⟨rfl, rfl⟩ := Prod.mk.inj (Option.some.inj h)
    exact Or.inl ⟨rfl, rfl⟩
  · push Not at hd
    rw [readToStop] at h
    · obtain ⟨⟨x, r⟩, hx, h⟩ := Option.bind_eq_some_iff.mp h
      obtain ⟨⟨xs', r'⟩, hxs, h⟩ := Option.bind_eq_some_iff.mp h
      obtain ⟨rfl, rfl⟩ := Prod.mk.inj (Option.some.inj h)
      exact Or.inr ⟨hd, x, r, xs', hx, hxs, rfl⟩
    · exact hd

@[simp] lemma readRest_zero : readRest (some 0) d = some ((), d) := by
  simp [readRest, skipMany]

section Items

variable {α : Type} {enc : α → Bytes} {item : Bytes → Option (α × Bytes)} {xs : List α}

/-- Items that are read back as what a function makes of them. -/
lemma readMany_flatMap {β : Type} {item : Bytes → Option (β × Bytes)} {f : α → β}
    (h : ∀ x ∈ xs, ∀ d, item (enc x ++ d) = some (f x, d)) :
    readMany item xs.length (xs.flatMap enc ++ d) = some (xs.map f, d) := by
  induction xs with
  | nil => rfl
  | cons x xs ih =>
    have hx := h x (by simp) (xs.flatMap enc ++ d)
    have hxs := ih fun y hy => h y (by simp [hy])
    simp [readMany, hx, hxs]

/-- An item that is read back and does not start with the break byte. -/
def Reads (item : Bytes → Option (α × Bytes)) (b : Bytes) (x : α) : Prop :=
  (∀ d, item (b ++ d) = some (x, d)) ∧ b ≠ [] ∧ ∀ d d', b ++ d ≠ 0xff :: d'

lemma readToStop_flatMap {β : Type} {item : Bytes → Option (β × Bytes)} {f : α → β}
    (h : ∀ x ∈ xs, Reads item (enc x) (f x)) {fuel : ℕ} (hfuel : xs.length < fuel) :
    readToStop item fuel (xs.flatMap enc ++ (stop ++ d)) = some (xs.map f, d) := by
  induction xs generalizing fuel with
  | nil =>
    obtain ⟨fuel, rfl⟩ := Nat.exists_eq_add_of_lt hfuel
    simp [readToStop, stop]
  | cons x xs ih =>
    obtain ⟨k, rfl⟩ := Nat.exists_eq_add_of_lt hfuel
    obtain ⟨hx, -, hbreak⟩ := h x (by simp)
    -- an item does not start with the break byte, so the reader goes on
    have hxs := @ih (fun y hy => h y (by simp [hy])) (xs.length + 1 + k) (by omega)
    have hfuel' : (x :: xs).length + k + 1 = (xs.length + 1 + k) + 1 := by simp
    rw [hfuel', List.flatMap_cons, List.append_assoc, readToStop]
    · simp [hx, hxs]
    · exact fun d' => hbreak _ d'

lemma length_le_flatMap (h : ∀ x ∈ xs, enc x ≠ []) : xs.length ≤ (xs.flatMap enc).length := by
  induction xs with
  | nil => simp
  | cons x xs ih =>
    have hx : 0 < (enc x).length := List.length_pos_iff.mpr (h x (by simp))
    have hxs := ih fun y hy => h y (by simp [hy])
    simp only [List.length_cons, List.flatMap_cons, List.length_append]
    omega

lemma readItems_beginArray (h : ∀ x ∈ xs, Reads item (enc x) x) :
    readItems item (beginArray ++ (xs.flatMap enc ++ (stop ++ d))) = some (xs, d) := by
  have hlen : xs.length ≤ (xs.flatMap enc).length := length_le_flatMap fun x hx => (h x hx).2.1
  simp only [readItems, readArray_beginArray, Option.bind_eq_bind, Option.bind_some]
  rw [readToStop_flatMap (f := id) d h (by simp only [List.length_append]; omega), List.map_id]

/-- A byte string in chunks is read back. -/
lemma readChunks_beginBytes {f : α → Bytes} (h : ∀ x ∈ xs, Reads readBytes (enc x) (f x)) :
    readChunks (beginBytes ++ (xs.flatMap enc ++ (stop ++ d))) = some ((xs.map f).flatten, d) := by
  have hlen : xs.length ≤ (xs.flatMap enc).length := length_le_flatMap fun x hx => (h x hx).2.1
  have hhead : readHead (beginBytes ++ (xs.flatMap enc ++ (stop ++ d))) =
      some (2, none, xs.flatMap enc ++ (stop ++ d)) := rfl
  rw [readChunks, hhead]
  simp only
  rw [readToStop_flatMap d h (by simp only [List.length_append]; omega), Option.map_some]

/-! ### Frames and lists -/

/-- Items between the start and the end of an array of indefinite length. -/
def framed (b : Bytes) : Bytes := beginArray ++ (b ++ stop)

/-- The items of an array whose framing is not looked at, and a break after them. -/
def readFramed (item : Bytes → Option (α × Bytes)) (d : Bytes) : Option (α × Bytes) := do
  let (_, d) ← readArray d
  let (x, d) ← item d
  let (_, d) ← readStop d
  return (x, d)

/-- An optional item, null when there is none. -/
def optional (enc : α → Bytes) (x : Option α) : Bytes := (x.map enc).getD null

/-- The items of a vector, after their number. -/
def vec (enc : α → Bytes) (xs : List α) : Bytes := array xs.length ++ xs.flatMap enc

/-- A list: definite when it is empty, and of indefinite length otherwise. -/
def list (enc : α → Bytes) (xs : List α) : Bytes :=
  if xs.isEmpty then array 0 else framed (xs.flatMap enc)

lemma readItems_vec {β : Type} {item : Bytes → Option (β × Bytes)} {f : α → β}
    (hlen : xs.length < 256 ^ 8) (h : ∀ x ∈ xs, ∀ d, item (enc x ++ d) = some (f x, d)) :
    readItems item (vec enc xs ++ d) = some (xs.map f, d) := by
  simp [readItems, vec, readArray_array _ hlen, readMany_flatMap _ h]

/-- An optional item is read back when its reader does not take null for an item. -/
lemma readOptional_optional {β : Type} {item : Bytes → Option (β × Bytes)} {x : Option α}
    (h : ∀ y ∈ x, ∀ d', enc y ++ d ≠ 0xf6 :: d') :
    readOptional item (optional enc x ++ d) =
      match x with
      | none => some (none, d)
      | some y => (item (enc y ++ d)).map fun (z, d) => (some z, d) := by
  cases x with
  | none => rfl
  | some y =>
    rw [optional, Option.map_some, Option.getD_some, readOptional]
    exact h y rfl

lemma readFramed_framed {b : Bytes} {x : α} (h : ∀ d, item (b ++ d) = some (x, d)) :
    readFramed item (framed b ++ d) = some (x, d) := by
  simp [readFramed, framed, h]

lemma readFramed_map {β : Type} (f : α → β) (d : Bytes) :
    readFramed (fun d => (item d).map fun r => (f r.1, r.2)) d =
      (readFramed item d).map fun r => (f r.1, r.2) := by
  simp [readFramed, Option.map_eq_bind, Option.bind_assoc]

lemma readItems_list (h : ∀ x ∈ xs, Reads item (enc x) x) :
    readItems item (list enc xs ++ d) = some (xs, d) := by
  cases xs with
  | nil => exact @readItems_vec d α enc [] α item id (by norm_num) (by simp)
  | cons x xs => simpa [list, framed] using readItems_beginArray d h

end Items

lemma reads_bytes {b : Bytes} (hb : b.length < 256 ^ 8) : Reads readBytes (bytes b) b := by
  refine ⟨fun d => readBytes_bytes d hb, ?_, fun d d' => ?_⟩
  · simp [bytes, head_ne_nil]
  · rw [bytes, List.append_assoc]
    exact head_ne_break (by norm_num) _ _

lemma reads_uint (n : UInt64) : Reads readUInt (uint n) n :=
  ⟨fun d => readUInt_uint d n, head_ne_nil _ _, head_ne_break (by norm_num)⟩

end Lib.Cbor
