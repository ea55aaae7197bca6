import Mathlib.Data.List.Induction
import Konduit.Lib.Plutus

/-!
# Integers of any size

A CBOR integer denotes itself, a byte string under tag 2 the number that its bytes spell, and a
byte string under tag 3 as much below `-1`.  The bytes that `serialiseData` makes of an integer
denote it (`readInteger_serialiseInt`).
-/

namespace Lib

namespace Cbor

lemma unbe_lt (b : Bytes) : unbe b < 256 ^ b.length := by
  induction b using List.reverseRecOn with
  | nil => simp [unbe]
  | append_singleton b x ih =>
    have hx := x.toNat_lt
    have hb : unbe (b ++ [x]) = unbe b * 256 + x.toNat := by simp [unbe]
    rw [hb, List.length_append, List.length_singleton, pow_succ]
    omega

lemma readArg_lt {k n : ℕ} {d d' : Bytes} (h : readArg k d = some (n, d')) : n < 256 ^ k := by
  rw [readArg] at h
  split_ifs at h with hk
  obtain ⟨rfl, -⟩ := Prod.mk.inj (Option.some.inj h)
  have hlt := unbe_lt (d.take k)
  rwa [List.length_take, Nat.min_eq_left hk] at hlt

/-- The argument of a head is below `2 ^ 64`. -/
lemma readHead_lt {d d' : Bytes} {major n : ℕ} (h : readHead d = some (major, some n, d')) :
    n < 256 ^ 8 := by
  have harg : ∀ {k : ℕ} {d : Bytes} {major' : ℕ}, k ≤ 8 →
      ((readArg k d).map fun x => (major', some x.1, x.2)) = some (major, some n, d') →
        n < 256 ^ 8 := by
    intro k d major' hk h
    obtain ⟨⟨n', d''⟩, hread, heq⟩ := Option.map_eq_some_iff.mp h
    cases heq
    exact (readArg_lt hread).trans_le (Nat.pow_le_pow_right (by norm_num) hk)
  cases d with
  | nil => cases h
  | cons b d =>
    simp only [readHead] at h
    split_ifs at h with h₀
    · cases h
      omega
    · exact harg (by norm_num) h
    · exact harg (by norm_num) h
    · exact harg (by norm_num) h
    · exact harg (by norm_num) h
    · cases h

/-- Read an integer for what it denotes. -/
def readInteger (d : Bytes) : Option (ℤ × Bytes) :=
  match readHead d with
  | some (0, some n, d) => some (n, d)
  | some (1, some n, d) => some (-1 - n, d)
  | some (6, some 2, d) => (readChunks d).map fun (b, d) => ((unbe b : ℤ), d)
  | some (6, some 3, d) => (readChunks d).map fun (b, d) => (-1 - (unbe b : ℤ), d)
  | _ => none

section ReadInteger

variable {d d' : Bytes} {n : ℕ}

lemma readInteger_of_zero (h : readHead d = some (0, some n, d')) :
    readInteger d = some ((n : ℤ), d') := by
  rw [readInteger, h]
  rfl

lemma readInteger_of_one (h : readHead d = some (1, some n, d')) :
    readInteger d = some (-1 - (n : ℤ), d') := by
  rw [readInteger, h]
  rfl

lemma readInteger_of_tag_two (h : readHead d = some (6, some 2, d')) :
    readInteger d = (readChunks d').map fun x => ((unbe x.1 : ℤ), x.2) := by
  rw [readInteger, h]
  rfl

lemma readInteger_of_tag_three (h : readHead d = some (6, some 3, d')) :
    readInteger d = (readChunks d').map fun x => (-1 - (unbe x.1 : ℤ), x.2) := by
  rw [readInteger, h]
  rfl

lemma readHead_tag {n : ℕ} (hn : n < 256 ^ 8) (b d : Bytes) :
    readHead (tag n ++ b ++ d) = some (6, some n, b ++ d) := by
  rw [tag, List.append_assoc, readHead_head (by norm_num) hn]

end ReadInteger

end Cbor

namespace Plutus

/-- The shortest bytes of a number spell it. -/
lemma unbe_natBytes (n : ℕ) : Cbor.unbe (natBytes n) = n := by
  rw [natBytes]
  split_ifs with hn
  · rw [hn]
    rfl
  · refine Cbor.unbe_be ?_
    have hpow : (256 : ℕ) ^ (n.log2 / 8 + 1) = 2 ^ (8 * (n.log2 / 8 + 1)) := by
      rw [pow_mul]
      norm_num
    rw [hpow]
    exact Nat.lt_log2_self.trans_le (Nat.pow_le_pow_right (by norm_num) (by omega))

/-- What is serialised of an integer denotes it. -/
theorem readInteger_serialiseInt (n : ℤ) (d : Bytes) :
    Cbor.readInteger (serialiseInt n ++ d) = some (n, d) := by
  cases n with
  | ofNat n =>
    rw [serialiseInt]
    split_ifs with hn
    · exact Cbor.readInteger_of_zero (Cbor.readHead_head (by norm_num) (by omega) d)
    · rw [Cbor.readInteger_of_tag_two (Cbor.readHead_tag (by norm_num) _ d),
        readChunks_serialiseBytes, Option.map_some, unbe_natBytes]
      rfl
  | negSucc n =>
    have hneg : Int.negSucc n = -1 - (n : ℤ) := by omega
    rw [serialiseInt, hneg]
    split_ifs with hn
    · exact Cbor.readInteger_of_one (Cbor.readHead_head (by norm_num) (by omega) d)
    · rw [Cbor.readInteger_of_tag_three (Cbor.readHead_tag (by norm_num) _ d),
        readChunks_serialiseBytes, Option.map_some, unbe_natBytes]

end Plutus

end Lib
