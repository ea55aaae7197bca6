import Konduit.Lib.Bytes

/-!
# Readers of a growing buffer

A reader looks for a value at the beginning of a buffer.  What it has decided it keeps to when the
buffer grows; as long as it has not, it waits for more.  A reader that goes through the bytes one by
one is such a reader (`Reader.ofStep`).
-/

namespace Lib

variable {T E σ : Type}

/-- What a reader makes of a buffer: a value and how many bytes it takes, an error, or nothing yet.
-/
inductive Reading (T E : Type) where
  | value (v : T) (offset : ℕ)
  | error (e : E)
  | more
deriving DecidableEq

namespace Reading

/-- The reading of a buffer with one byte before what is read. -/
def succ : Reading T E → Reading T E
  | value v n => value v (n + 1)
  | error e => error e
  | more => more

lemma succ_eq_value_iff {r : Reading T E} {v : T} {n : ℕ} :
    r.succ = value v n ↔ ∃ m, r = value v m ∧ n = m + 1 := by
  cases r with
  | value v' m => simp [succ, eq_comm]
  | error e => simp [succ]
  | more => simp [succ]

lemma succ_eq_error_iff {r : Reading T E} {e : E} : r.succ = error e ↔ r = error e := by
  cases r <;> simp [succ]

end Reading

/-- A reader that keeps to what it has decided when the buffer grows. -/
structure Reader (T E : Type) where
  read : Bytes → Reading T E
  offset_pos : ∀ {b v n}, read b = .value v n → 0 < n
  offset_le : ∀ {b v n}, read b = .value v n → n ≤ b.length
  value_append : ∀ {b v n}, read b = .value v n → ∀ c, read (b ++ c) = .value v n
  error_append : ∀ {b e}, read b = .error e → ∀ c, read (b ++ c) = .error e

namespace Reader

/-! ### Byte by byte -/

/-- What a byte comes to in a state. -/
inductive Step (σ T E : Type) where
  | next (s : σ)
  | done (v : T)
  | refuse (e : E)

/-- Go through the bytes from a state. -/
def scan (step : σ → UInt8 → Step σ T E) : σ → Bytes → Reading T E
  | _, [] => .more
  | s, x :: b =>
    match step s x with
    | .next s' => (scan step s' b).succ
    | .done v => .value v 1
    | .refuse e => .error e

section Scan

variable {step : σ → UInt8 → Step σ T E} {s s' : σ} {x : UInt8} {b : Bytes} {v : T} {n : ℕ} {e : E}

lemma scan_of_done (h : step s x = .done v) : scan step s (x :: b) = .value v 1 := by
  rw [scan, h]

lemma scan_of_refuse (h : step s x = .refuse e) : scan step s (x :: b) = .error e := by
  rw [scan, h]

lemma scan_of_next (h : step s x = .next s') :
    scan step s (x :: b) = (scan step s' b).succ := by
  rw [scan, h]

lemma scan_value (h : scan step s b = .value v n) :
    (0 < n ∧ n ≤ b.length) ∧ ∀ c, scan step s (b ++ c) = .value v n := by
  induction b generalizing s n with
  | nil => cases h
  | cons x b ih =>
    cases hstep : step s x with
    | next s' =>
      rw [scan_of_next hstep] at h
      obtain ⟨m, hm, rfl⟩ := Reading.succ_eq_value_iff.mp h
      obtain ⟨⟨-, hle⟩, happend⟩ := ih hm
      refine ⟨⟨Nat.succ_pos m, Nat.succ_le_succ hle⟩, fun c => ?_⟩
      rw [List.cons_append, scan_of_next hstep, happend c, Reading.succ]
    | done v' =>
      rw [scan_of_done hstep] at h
      cases h
      exact ⟨⟨Nat.one_pos, Nat.succ_le_succ (Nat.zero_le _)⟩, fun c => scan_of_done hstep⟩
    | refuse e =>
      rw [scan_of_refuse hstep] at h
      cases h

lemma scan_error (h : scan step s b = .error e) (c : Bytes) : scan step s (b ++ c) = .error e := by
  induction b generalizing s with
  | nil => cases h
  | cons x b ih =>
    cases hstep : step s x with
    | next s' =>
      rw [scan_of_next hstep, Reading.succ_eq_error_iff] at h
      rw [List.cons_append, scan_of_next hstep, ih h, Reading.succ]
    | done v =>
      rw [scan_of_done hstep] at h
      cases h
    | refuse e' =>
      rw [scan_of_refuse hstep] at h
      cases h
      exact scan_of_refuse hstep

end Scan

/-- A reader that goes through the bytes one by one. -/
def ofStep (step : σ → UInt8 → Step σ T E) (start : σ) : Reader T E where
  read := scan step start
  offset_pos h := (scan_value h).1.1
  offset_le h := (scan_value h).1.2
  value_append h := (scan_value h).2
  error_append := scan_error

lemma read_ofStep (step : σ → UInt8 → Step σ T E) (start : σ) (b : Bytes) :
    (ofStep step start).read b = scan step start b := rfl

end Reader

end Lib
