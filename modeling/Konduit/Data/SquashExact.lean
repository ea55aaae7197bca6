import Mathlib.Algebra.BigOperators.Group.List.Basic
import Konduit.Data.Cheque
import Konduit.Data.SquashBody
import Konduit.Lib.Result

/-!
# Squashing in place

The source squashes in place: it changes the exclude list, the amount and the index one after
another.  What is refused leaves the body as it was (`squashMut_eq`), and cheques make the same
body in any order (`eq_of_perm`).  One call is exact just when the amounts do not wrap and the
length of the exclude list is not cut to a machine word (`squash_exact_iff`).
-/

open Lib

namespace Konduit.Data

/-! ### In place -/

namespace Indexes

/-- What an operation in place returns, and the list after it. -/
def removeMut (self : Indexes) (item : UInt64) : Except IndexesError Unit × Indexes :=
  match BinarySearch.listSearch self.items item with
  | .ok index => (.ok (), ⟨self.items.eraseIdx index⟩)
  | .error _ => (.error .noIndex, self)

/-- Extend the indexes, which stay as they were where that fails. -/
def extendVecMut (usizeBits : ℕ) (self : Indexes) (lo hi : UInt64) :
    Except IndexesError Unit × Indexes :=
  match extendVec usizeBits self.items lo hi with
  | .ok self => (.ok (), self)
  | .error e => (.error e, self)

/-- Extend the indexes by a range, where it is above them and there is room. -/
def extendMut (usizeBits : ℕ) (self : Indexes) (lo hi : UInt64) :
    Except IndexesError Unit × Indexes :=
  match compare hi lo with
  | .lt => (.error .order, self)
  | .eq => (.ok (), self)
  | .gt =>
    if (self.items.length + (hi - lo).toNat) % 2 ^ usizeBits > maxExcludeLength then
      (.error .length, self)
    else
      match self.last with
      | some last =>
        if last < lo then extendVecMut usizeBits self lo hi else (.error .lessThanLast, self)
      | none => extendVecMut usizeBits self lo hi

end Indexes

/-- An update that is made as a whole or not at all. -/
def inPlace {σ ε : Type} (self : σ) : Except ε σ → Except ε Unit × σ
  | .ok self' => (.ok (), self')
  | .error e => (.error e, self)

namespace Indexes

lemma removeMut_eq (self : Indexes) (item : UInt64) :
    self.removeMut item = inPlace self (self.remove item) := by
  rw [removeMut, remove]
  cases BinarySearch.listSearch self.items item <;> rfl

lemma extendVecMut_eq (usizeBits : ℕ) (self : Indexes) (lo hi : UInt64) :
    self.extendVecMut usizeBits lo hi = inPlace self (extendVec usizeBits self.items lo hi) := by
  rw [extendVecMut]
  cases extendVec usizeBits self.items lo hi <;> rfl

lemma extendMut_eq (usizeBits : ℕ) (self : Indexes) (lo hi : UInt64) :
    self.extendMut usizeBits lo hi = inPlace self (self.extend usizeBits lo hi) := by
  rw [extendMut, extend]
  cases compare hi lo with
  | lt | eq => rfl
  | gt =>
    dsimp only
    split_ifs with hlen
    · rfl
    · cases self.last with
      | none => exact extendVecMut_eq usizeBits self lo hi
      | some last =>
        dsimp only
        split_ifs with hlast
        · exact extendVecMut_eq usizeBits self lo hi
        · rfl

/-! ### What extend returns -/

section Extend

variable {self : Indexes} {usizeBits : ℕ} {lo hi : UInt64}

/-- Above the last item, an extension goes by the length. -/
lemma extend_of_lt (hlt : lo < hi) (hbelow : ∀ i ∈ self.items, i < lo) :
    self.extend usizeBits lo hi =
      if (self.items.length + (hi - lo).toNat) % 2 ^ usizeBits > maxExcludeLength then
        .error .length
      else extendVec usizeBits self.items lo hi := by
  rw [extend, compare_gt_iff_gt.mpr hlt]
  dsimp only
  split_ifs with hlen
  · rfl
  · cases hlast : self.last with
    | none => rfl
    | some last => exact if_pos (hbelow last (List.mem_of_getLast? hlast))

lemma toNat_sub_of_le (h : lo ≤ hi) : (hi - lo).toNat = hi.toNat - lo.toNat :=
  UInt64.toNat_sub_of_le hi lo h

/-- A short extension is made. -/
lemma extend_of_short (hbits : 32 ≤ usizeBits) (hle : lo ≤ hi) (hbelow : ∀ i ∈ self.items, i < lo)
    (hlen : self.items.length + (hi.toNat - lo.toNat) ≤ maxExcludeLength) :
    ∃ self', self.extend usizeBits lo hi = .ok self' := by
  rcases hle.eq_or_lt with rfl | hlt
  · exact ⟨self, by rw [extend, compare_eq_iff_eq.mpr rfl]⟩
  · rw [← toNat_sub_of_le hle] at hlen
    have hten : maxExcludeLength = 10 := rfl
    have hword : 2 ^ 31 ≤ 2 ^ (usizeBits - 1) := Nat.pow_le_pow_right (by norm_num) (by omega)
    have hmod := Nat.mod_le (self.items.length + (hi - lo).toNat) (2 ^ usizeBits)
    rw [extend_of_lt hlt hbelow, if_neg (by omega), extendVec, if_pos (by omega)]
    exact ⟨_, rfl⟩

/-- A long extension is refused by the length that is left of it in a machine word, and makes the
thread panic when that is short. -/
lemma extend_of_long (hle : lo ≤ hi) (hbelow : ∀ i ∈ self.items, i < lo)
    (hself : self.items.length ≤ maxExcludeLength)
    (hlen : maxExcludeLength < self.items.length + (hi.toNat - lo.toNat)) :
    self.extend usizeBits lo hi =
      if maxExcludeLength < (self.items.length + (hi.toNat - lo.toNat)) % 2 ^ usizeBits then
        .error .length
      else .error .capacity := by
  have hlt : lo < hi := by
    refine lt_of_le_of_ne hle fun heq => ?_
    rw [heq, Nat.sub_self] at hlen
    omega
  rw [extend_of_lt hlt hbelow, toNat_sub_of_le hle]
  split_ifs with hmod
  · rfl
  · -- what is left is short, so the whole is at least a machine word
    have hword : 2 ^ usizeBits ≤ self.items.length + (hi.toNat - lo.toNat) := by
      by_contra hshort
      exact hmod (by rwa [Nat.mod_eq_of_lt (not_le.mp hshort)])
    have hhalf : 2 ^ (usizeBits - 1) ≤ 2 ^ usizeBits :=
      Nat.pow_le_pow_right (by norm_num) (Nat.sub_le _ _)
    rw [extendVec, toNat_sub_of_le hle, if_neg (by omega)]

end Extend

end Indexes

/-- The error is returned: the thread does not panic. -/
def SquashBodyError.Returned (e : SquashBodyError) : Prop := e ≠ .exclude .capacity

namespace SquashBody

/-- Squash one cheque in place, a field after another. -/
def squashMut (usizeBits : ℕ) (self : SquashBody) (index amount : UInt64) :
    Except SquashBodyError Unit × SquashBody :=
  match self.exclude.removeMut index with
  | (.ok _, exclude) =>
    let self := { self with exclude }
    (.ok (), { self with amount := self.amount + amount })
  | (.error _, exclude) =>
    let self := { self with exclude }
    if self.index ≥ index then (.error .duplicateIndex, self)
    else
      match self.exclude.extendMut usizeBits (self.index + 1) index with
      | (.error e, exclude) => (.error (.exclude e), { self with exclude })
      | (.ok _, exclude) =>
        let self := { self with exclude }
        let self := { self with amount := self.amount + amount }
        (.ok (), { self with index })

/-- What is refused leaves the body as it was. -/
lemma squashMut_eq (usizeBits : ℕ) (self : SquashBody) (index amount : UInt64) :
    self.squashMut usizeBits index amount = inPlace self (self.squash usizeBits index amount) := by
  rw [squashMut, squash, Indexes.removeMut_eq]
  cases self.exclude.remove index with
  | ok exclude => rfl
  | error e =>
    simp only [inPlace, Indexes.extendMut_eq]
    split_ifs with hge
    · rfl
    · cases self.exclude.extend usizeBits (self.index + 1) index <;> rfl

/-! ### What squash returns -/

/-- How many indexes are excluded once an index is squashed. -/
def newLength (self : SquashBody) (index : UInt64) : ℕ :=
  if index ∈ self.exclude.items then self.exclude.items.length - 1
  else self.exclude.items.length + (index.toNat - self.index.toNat - 1)

variable {self self' : SquashBody} {index amount : UInt64} {usizeBits : ℕ}

lemma squash_of_squashed (h : self.WellFormed) (hsquashed : self.Squashed index) :
    self.squash usizeBits index amount = .error .duplicateIndex := by
  rw [squash, Indexes.remove_eq_error h.exclude hsquashed.2]
  exact if_pos hsquashed.1

/-- An excluded index is squashed whatever the lengths. -/
lemma squash_of_excluded (h : self.WellFormed) (hmem : index ∈ self.exclude.items) :
    ∃ self', self.squash usizeBits index amount = .ok self' := by
  have hremove : self.exclude.remove index = .ok ⟨self.exclude.items.erase index⟩ :=
    (Indexes.remove_eq_ok h.exclude).mpr ⟨hmem, rfl⟩
  rw [squash, hremove]
  exact ⟨_, rfl⟩

/-- Beyond the index of the body, the exclude list is extended up to the new index. -/
lemma squash_of_lt (h : self.WellFormed) (hlt : self.index < index) :
    self.squash usizeBits index amount =
      ((self.exclude.extend usizeBits (self.index + 1) index).mapError .exclude).map fun exclude =>
        { amount := self.amount + amount, index, exclude } := by
  have hmem : index ∉ self.exclude.items := fun hmem => absurd (h.below index hmem) hlt.not_gt
  rw [squash, Indexes.remove_eq_error h.exclude hmem]
  simp only [ge_iff_le, not_le.mpr hlt, if_false]
  cases self.exclude.extend usizeBits (self.index + 1) index <;> rfl

/-- Beyond the index of the body, what is excluded in between counts. -/
lemma newLength_of_lt (h : self.WellFormed) (hlt : self.index < index) :
    self.newLength index =
      self.exclude.items.length + (index.toNat - (self.index + 1).toNat) := by
  have hmem : index ∉ self.exclude.items := fun hmem => absurd (h.below index hmem) hlt.not_gt
  have hnat := UInt64.lt_iff_toNat_lt.mp hlt
  have hmax := index.toNat_lt
  have hnext : (self.index + 1).toNat = self.index.toNat + 1 := by
    rw [UInt64.toNat_add, UInt64.toNat_one, Nat.mod_eq_of_lt (by omega)]
  rw [newLength, if_neg hmem, hnext, Nat.sub_sub]

/-- An index that is not squashed is excluded or beyond. -/
lemma lt_or_mem_of_not_squashed (h : ¬self.Squashed index) :
    self.index < index ∨ index ∈ self.exclude.items := by
  by_cases hle : index ≤ self.index
  · exact Or.inr (not_not.mp fun hmem => h ⟨hle, hmem⟩)
  · exact Or.inl (not_le.mp hle)

lemma below_next (h : self.WellFormed) (hlt : self.index < index) :
    ∀ i ∈ self.exclude.items, i < self.index + 1 := fun i hi =>
  (h.below i hi).trans ((next_le_iff hlt _).mp le_rfl)

/-- With few enough excluded, squashing succeeds. -/
lemma squash_of_short (hbits : 32 ≤ usizeBits) (h : self.WellFormed)
    (hsquashed : ¬self.Squashed index) (hlen : self.newLength index ≤ maxExcludeLength) :
    ∃ self', self.squash usizeBits index amount = .ok self' := by
  rcases lt_or_mem_of_not_squashed hsquashed with hlt | hmem
  · have hnext : self.index + 1 ≤ index := (next_le_iff hlt index).mpr hlt
    rw [newLength_of_lt h hlt] at hlen
    obtain ⟨exclude, hextend⟩ := Indexes.extend_of_short hbits hnext (below_next h hlt) hlen
    rw [squash_of_lt h hlt, hextend]
    exact ⟨_, rfl⟩
  · exact squash_of_excluded h hmem

/-- With too many excluded, squashing is refused, or the thread panics. -/
lemma squash_of_long (h : self.WellFormed) (hsquashed : ¬self.Squashed index)
    (hlen : maxExcludeLength < self.newLength index) :
    self.squash usizeBits index amount =
      .error (.exclude (if maxExcludeLength < self.newLength index % 2 ^ usizeBits then .length
        else .capacity)) := by
  rcases lt_or_mem_of_not_squashed hsquashed with hlt | hmem
  · have hnext : self.index + 1 ≤ index := (next_le_iff hlt index).mpr hlt
    rw [newLength_of_lt h hlt] at hlen ⊢
    rw [squash_of_lt h hlt,
      Indexes.extend_of_long hnext (below_next h hlt) h.exclude.short hlen]
    split_ifs <;> rfl
  · have hshort := h.exclude.short
    rw [newLength, if_pos hmem] at hlen
    omega

/-! ### Any order -/

/-- Squash a cheque. -/
def squashCheque {T : Type} (usizeBits : ℕ) (self : SquashBody) (cheque : ChequeBody T) :
    Except SquashBodyError SquashBody :=
  self.squash usizeBits cheque.index cheque.amount

variable {T : Type} {cheques cheques' : List (ChequeBody T)}

/-- Squashing cheques one after another squashes their indexes, which are distinct and were not
squashed before, and nothing else, for the sum of their amounts. -/
theorem squashCheques_eq_ok (h : self.WellFormed)
    (hsquash : cheques.foldlM (squashCheque usizeBits) self = .ok self') :
    self'.WellFormed ∧ self.index ≤ self'.index ∧
      self'.amount = self.amount + Word.sum (cheques.map ChequeBody.amount) ∧
      (∀ i, self'.Squashed i ↔ self.Squashed i ∨ ∃ cheque ∈ cheques, cheque.index = i) ∧
      ∀ cheque ∈ cheques, ¬self.Squashed cheque.index := by
  induction cheques generalizing self with
  | nil =>
    obtain rfl := Except.ok.inj hsquash
    simp [h]
  | cons cheque cheques ih =>
    rw [List.foldlM_cons] at hsquash
    obtain ⟨next, hnext, hrest⟩ := Result.bind_eq_ok.mp hsquash
    obtain ⟨hwf, hnew, hamount, hindex, hsquashed⟩ := squash_eq_ok h hnext
    obtain ⟨hwf', hindex', hamount', hsquashed', hnew'⟩ := ih hwf hrest
    refine ⟨hwf', hindex.trans hindex', ?_, fun i => ?_, List.forall_mem_cons.mpr ⟨hnew, ?_⟩⟩
    · rw [hamount', hamount, List.map_cons, Word.sum_cons, UInt64.add_assoc]
    · rw [hsquashed', hsquashed, or_assoc, List.exists_mem_cons_iff, eq_comm]
    · -- a later cheque of the same index would be squashed by now
      exact fun later hlater hs => hnew' later hlater ((hsquashed _).mpr (Or.inl hs))

/-- Cheques make the same body in any order in which they are squashed. -/
lemma eq_of_perm {body body' : SquashBody} (h : self.WellFormed) (hperm : cheques.Perm cheques')
    (hsquash : cheques.foldlM (squashCheque usizeBits) self = .ok body)
    (hsquash' : cheques'.foldlM (squashCheque usizeBits) self = .ok body') : body = body' := by
  obtain ⟨hwf, -, hamount, hsquashed, -⟩ := squashCheques_eq_ok h hsquash
  obtain ⟨hwf', -, hamount', hsquashed', -⟩ := squashCheques_eq_ok h hsquash'
  refine hwf.ext hwf' ?_ fun i => ?_
  · rw [hamount, hamount', Word.sum_perm (hperm.map _)]
  · rw [hsquashed, hsquashed']
    exact or_congr_right (exists_congr fun cheque => and_congr_left' hperm.mem_iff)

/-! ### Exactness -/

/-- One call does what it is for: what is squashed grows by the index, and the amount by the
amount; what is refused leaves the body; and it refuses an index that is squashed, a list that
gets too long and an amount that does not fit, nothing else. -/
structure Exact (usizeBits : ℕ) (body : SquashBody) (index amount : UInt64) : Prop where
  ok : ∀ body', body.squashMut usizeBits index amount = (.ok (), body') →
    body'.WellFormed ∧ body.isIndexSquashed index = false ∧
      (∀ i, body'.isIndexSquashed i = true ↔ body.isIndexSquashed i = true ∨ i = index) ∧
      body'.amount.toNat = body.amount.toNat + amount.toNat
  error : ∀ e body', body.squashMut usizeBits index amount = (.error e, body') → e.Returned →
    body' = body
  refuses : (∃ e body', body.squashMut usizeBits index amount = (.error e, body') ∧ e.Returned) ↔
    body.isIndexSquashed index = true ∨ maxExcludeLength < body.newLength index ∨
      2 ^ 64 ≤ body.amount.toNat + amount.toNat

/-- The index is squashed, or the list stays short and the amount fits, or the length that is left
of the list in a machine word is too long. -/
def Fits (usizeBits : ℕ) (body : SquashBody) (index amount : UInt64) : Prop :=
  body.isIndexSquashed index = true ∨
    (body.newLength index ≤ maxExcludeLength ∧ body.amount.toNat + amount.toNat < 2 ^ 64) ∨
    maxExcludeLength < body.newLength index % 2 ^ usizeBits

/-- A call that is refused is exact when it is to be refused. -/
lemma exact_of_error {e : SquashBodyError}
    (hsquash : self.squash usizeBits index amount = .error e) :
    self.Exact usizeBits index amount ↔ (e.Returned ↔ self.isIndexSquashed index = true ∨
      maxExcludeLength < self.newLength index ∨ 2 ^ 64 ≤ self.amount.toNat + amount.toNat) := by
  have hmut : self.squashMut usizeBits index amount = (.error e, self) := by
    rw [squashMut_eq, hsquash, inPlace]
  have hrefuses : (∃ e' body', self.squashMut usizeBits index amount = (.error e', body') ∧
      e'.Returned) ↔ e.Returned := by
    rw [hmut]
    constructor
    · rintro ⟨e', body', heq, he'⟩
      obtain ⟨h, -⟩ := Prod.mk.inj heq
      obtain rfl := Except.error.inj h
      exact he'
    · exact fun he => ⟨e, self, rfl, he⟩
  constructor
  · intro h
    exact hrefuses.symm.trans h.refuses
  · intro h
    refine ⟨fun body' heq => ?_, fun e' body' heq _ => ?_, hrefuses.trans h⟩
    · rw [hmut] at heq
      simp at heq
    · rw [hmut] at heq
      exact (Prod.mk.inj heq).2.symm

/-- A call that goes through is exact when the list stays short and the amount fits. -/
lemma exact_of_ok (h : self.WellFormed) (hsquash : self.squash usizeBits index amount = .ok self') :
    self.Exact usizeBits index amount ↔
      self.newLength index ≤ maxExcludeLength ∧ self.amount.toNat + amount.toNat < 2 ^ 64 := by
  have hmut : self.squashMut usizeBits index amount = (.ok (), self') := by
    rw [squashMut_eq, hsquash, inPlace]
  have hrefuses : ¬∃ e body', self.squashMut usizeBits index amount = (.error e, body') ∧
      e.Returned := by
    rintro ⟨e, body', heq, -⟩
    rw [hmut] at heq
    simp at heq
  obtain ⟨hwf, hnot, hamount, -, hsquashed⟩ := squash_eq_ok h hsquash
  constructor
  · intro hexact
    have hnone := mt hexact.refuses.mpr hrefuses
    simpa only [not_or, not_lt, not_le] using (not_or.mp hnone).2
  · rintro ⟨hlen, hfits⟩
    have hnot : self.isIndexSquashed index = false := by
      rwa [← Bool.not_eq_true, isIndexSquashed_iff h]
    refine ⟨fun body' heq => ?_, fun e body' heq _ => ?_, ?_⟩
    · rw [hmut] at heq
      obtain ⟨-, rfl⟩ := Prod.mk.inj heq
      refine ⟨hwf, hnot, fun i => ?_, ?_⟩
      · rw [isIndexSquashed_iff hwf, isIndexSquashed_iff h, hsquashed]
      · rw [hamount, UInt64.toNat_add, Nat.mod_eq_of_lt hfits]
    · rw [hmut] at heq
      simp at heq
    · refine iff_of_false hrefuses ?_
      rw [hnot]
      exact not_or.mpr ⟨by simp, not_or.mpr ⟨hlen.not_gt, hfits.not_ge⟩⟩

/-- **Squashing, exactly.**  On a well-formed body, and with machine words of at least 32 bits, a
call of squash is exact if and only if the index is squashed already, or the new exclude list is
short enough and the amount fits, or what a machine word keeps of the length of the new list is too
long.  Cheques make the same body in any order in which they are squashed. -/
theorem squash_exact_iff (hbits : 32 ≤ usizeBits) (h : self.WellFormed) (index amount : UInt64) :
    (self.Exact usizeBits index amount ↔ self.Fits usizeBits index amount) ∧
      ∀ (cheques cheques' : List (ChequeBody Lock)) (body body' : SquashBody),
        cheques.Perm cheques' → cheques.foldlM (squashCheque usizeBits) self = .ok body →
        cheques'.foldlM (squashCheque usizeBits) self = .ok body' → body = body' := by
  refine ⟨?_, fun cheques cheques' body body' hperm => eq_of_perm h hperm⟩
  rw [Fits]
  by_cases hsquashed : self.Squashed index
  · rw [exact_of_error (squash_of_squashed h hsquashed), (isIndexSquashed_iff h).mpr hsquashed]
    simp [SquashBodyError.Returned]
  have hnot : self.isIndexSquashed index = false := by
    rwa [← Bool.not_eq_true, isIndexSquashed_iff h]
  rcases le_or_gt (self.newLength index) maxExcludeLength with hlen | hlen
  · obtain ⟨self', hsquash⟩ : ∃ self', self.squash usizeBits index amount = .ok self' :=
      squash_of_short hbits h hsquashed hlen
    have hmod := (Nat.mod_le (self.newLength index) (2 ^ usizeBits)).trans hlen
    rw [exact_of_ok h hsquash, hnot, or_iff_left hmod.not_gt]
    simp
  · have hlong : self.squash usizeBits index amount = _ := squash_of_long h hsquashed hlen
    have hrefused : self.isIndexSquashed index = true ∨ maxExcludeLength < self.newLength index ∨
        2 ^ 64 ≤ self.amount.toNat + amount.toNat := Or.inr (Or.inl hlen)
    rw [exact_of_error hlong, iff_true_right hrefused, hnot,
      or_iff_right fun hshort : _ ∧ _ => hlen.not_ge hshort.1]
    split_ifs with hmod
    · simp [SquashBodyError.Returned, hmod]
    · simp [SquashBodyError.Returned, hmod]

/-- A later index, with two excluded on the way. -/
theorem zero_exact : zero.Exact 32 3 5 :=
  ((squash_exact_iff (by norm_num) wellFormed_zero 3 5).1).mpr
    (Or.inr (Or.inl ⟨by decide, by decide⟩))

/-- An amount that wraps, and a gap that a word of 32 bits cuts to nothing. -/
theorem not_exact :
    ¬Exact 64 ⟨Word.maxValue, 0, Indexes.empty⟩ 1 1 ∧ ¬zero.Exact 32 4_294_967_297 1 := by
  constructor
  · intro h
    obtain ⟨-, -, -, hamount⟩ := h.ok ⟨0, 1, Indexes.empty⟩ rfl
    exact absurd hamount (by decide)
  · intro h
    obtain ⟨e, body', heq, he⟩ := h.refuses.mpr (Or.inr (Or.inl (by decide)))
    have hmut : zero.squashMut 32 4_294_967_297 1 = (.error (.exclude .capacity), zero) := rfl
    obtain ⟨herror, -⟩ := Prod.mk.inj (hmut.symm.trans heq)
    exact he (Except.error.inj herror).symm

end SquashBody

end Konduit.Data
