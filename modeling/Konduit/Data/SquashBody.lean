import Konduit.Data.Indexes

/-!
# Squash bodies

A squash stands for every cheque up to its index but those it excludes.  What it means on
a well-formed body, and how squashing one more cheque changes it, is in terms of the
indexes that are squashed (`SquashBody.Squashed`).
-/

open Lib

namespace Konduit.Data

/-- Why a squash is refused. -/
inductive SquashBodyError where
  | duplicateIndex
  | exclude (e : IndexesError)
  | indexNotGreaterThanExcludes
deriving DecidableEq

/-- An amount for all cheques up to an index, but for those that are excluded. -/
structure SquashBody where
  amount : UInt64
  index : UInt64
  exclude : Indexes
deriving DecidableEq

namespace SquashBody

/-- The null squash. -/
def zero : SquashBody := ⟨0, 0, Indexes.empty⟩

/-- The index is above all that are excluded. -/
def verifyNew (index : UInt64) (exclude : Indexes) : Bool :=
  match exclude.last with
  | some last => last < index
  | none => true

/-- Take a body whose index is above all that are excluded. -/
def new (amount index : UInt64) (exclude : Indexes) : Except SquashBodyError SquashBody :=
  if verifyNew index exclude then .ok ⟨amount, index, exclude⟩
  else .error .indexNotGreaterThanExcludes

/-- Squash one cheque: an excluded index is no longer excluded, and a new one excludes
those it skips. -/
def squash (usizeBits : ℕ) (self : SquashBody) (index amount : UInt64) :
    Except SquashBodyError SquashBody :=
  match self.exclude.remove index with
  | .ok exclude => .ok { self with amount := self.amount + amount, exclude }
  | .error _ =>
    if self.index ≥ index then .error .duplicateIndex
    else
      match self.exclude.extend usizeBits (self.index + 1) index with
      | .ok exclude => .ok { amount := self.amount + amount, index, exclude }
      | .error e => .error (.exclude e)

/-- The squash covers the index. -/
def isIndexSquashed (self : SquashBody) (index : UInt64) : Bool :=
  match compare self.index index with
  | .lt => false
  | .eq => true
  | .gt => !self.exclude.has index

/-! ### Well-formed bodies -/

/-- What the constructors check. -/
structure WellFormed (body : SquashBody) : Prop where
  exclude : body.exclude.WellFormed
  below : ∀ i ∈ body.exclude.items, i < body.index

/-- The index counts as squashed. -/
def Squashed (self : SquashBody) (index : UInt64) : Prop :=
  index ≤ self.index ∧ index ∉ self.exclude.items

variable {self self' : SquashBody} {index amount i : UInt64} {exclude : Indexes} {usizeBits : ℕ}

instance (self : SquashBody) : Decidable self.WellFormed :=
  letI : Decidable (∀ i ∈ self.exclude.items, i < self.index) := List.decidableBAll _ _
  decidable_of_iff (self.exclude.WellFormed ∧ ∀ i ∈ self.exclude.items, i < self.index)
    ⟨fun h => ⟨h.1, h.2⟩, fun h => ⟨h.exclude, h.below⟩⟩

lemma wellFormed_zero : zero.WellFormed := by decide

lemma verifyNew_iff (h : exclude.WellFormed) :
    verifyNew index exclude = true ↔ ∀ i ∈ exclude.items, i < index := by
  rw [verifyNew, Indexes.last]
  rcases List.eq_nil_or_concat exclude.items with hnil | ⟨init, last, hlast⟩
  · simp [hnil]
  · rw [List.concat_eq_append] at hlast
    have hsorted := hlast ▸ h.sorted
    have hbelow : ∀ i ∈ init, i < last := fun i hi =>
      (List.pairwise_append.mp hsorted).2.2 i hi last (by simp)
    simp only [hlast, List.getLast?_append, List.getLast?_singleton,
      Option.some_or, decide_eq_true_eq, List.mem_append, List.mem_singleton]
    constructor
    · rintro hlt i (hi | rfl)
      · exact (hbelow i hi).trans hlt
      · exact hlt
    · exact fun hall => hall last (Or.inr rfl)

lemma new_eq_ok (h : exclude.WellFormed) :
    new amount index exclude = .ok self ↔
      self = ⟨amount, index, exclude⟩ ∧ self.WellFormed := by
  rw [new]
  split_ifs with hv
  · rw [verifyNew_iff h] at hv
    constructor
    · intro heq
      obtain rfl : (⟨amount, index, exclude⟩ : SquashBody) = self := Except.ok.inj heq
      exact ⟨rfl, h, hv⟩
    · rintro ⟨rfl, -⟩
      rfl
  · constructor
    · simp
    · rintro ⟨rfl, hwf⟩
      exact absurd ((verifyNew_iff h).mpr hwf.below) hv

lemma isIndexSquashed_iff (h : self.WellFormed) :
    self.isIndexSquashed index = true ↔ self.Squashed index := by
  rw [isIndexSquashed, Squashed]
  rcases lt_trichotomy self.index index with hlt | heq | hgt
  · simp [compare_lt_iff_lt.mpr hlt, not_le.mpr hlt]
  · have hnotin : index ∉ self.exclude.items := fun hmem =>
      lt_irrefl _ (heq ▸ h.below index hmem)
    simp [heq, hnotin]
  · have hhas : self.exclude.has index = true ↔ index ∈ self.exclude.items :=
      Indexes.has_iff h.exclude
    rw [compare_gt_iff_gt.mpr hgt, ← hhas]
    simp [hgt.le]

@[simp] lemma isIndexSquashed_index (self : SquashBody) :
    self.isIndexSquashed self.index = true := by
  rw [isIndexSquashed, compare_eq_iff_eq.mpr rfl]

lemma le_of_isIndexSquashed (h : self.isIndexSquashed i = true) : i ≤ self.index := by
  rw [isIndexSquashed] at h
  split at h
  · exact absurd h (by simp)
  · rename_i heq
    exact (compare_eq_iff_eq.mp heq).ge
  · rename_i hgt
    exact (compare_gt_iff_gt.mp hgt).le

/-- Up to its own index, a body squashes what it does not exclude. -/
lemma mem_of_not_isIndexSquashed (h : self.isIndexSquashed i = false) (hle : i ≤ self.index) :
    i ∈ self.exclude.items := by
  rw [isIndexSquashed] at h
  split at h
  · rename_i hlt
    exact absurd hle (not_le.mpr (compare_lt_iff_lt.mp hlt))
  · exact absurd h (by simp)
  · exact Indexes.mem_of_has (by simpa using h)

/-- A body squashes all that another does just when it squashes the other's own index, and
excludes nothing that the other squashes.  Neither need be well-formed. -/
theorem isIndexSquashed_mono_iff :
    (∀ i, self.isIndexSquashed i = true → self'.isIndexSquashed i = true) ↔
      self'.isIndexSquashed self.index = true ∧
        ∀ i ∈ self'.exclude.items, self.isIndexSquashed i = true →
          self'.isIndexSquashed i = true := by
  constructor
  · exact fun h => ⟨h _ self.isIndexSquashed_index, fun i _ => h i⟩
  · rintro ⟨hindex, hexclude⟩ i hi
    by_contra hnot
    rw [Bool.not_eq_true] at hnot
    -- not squashed, and not above the other's index, so excluded
    have hle := (le_of_isIndexSquashed hi).trans (le_of_isIndexSquashed hindex)
    have hmem := mem_of_not_isIndexSquashed hnot hle
    exact absurd (hexclude i hmem hi) (by simp [hnot])

/-- Squashing all that another does: to come as far, and to exclude nothing of it. -/
lemma squashed_mono_iff (h : self'.WellFormed) :
    (∀ i, self'.Squashed i → self.Squashed i) ↔ self'.index ≤ self.index ∧
      ∀ i ∈ self.exclude.items, i ≤ self'.index → i ∈ self'.exclude.items := by
  constructor
  · intro hmono
    have hindex : self'.Squashed self'.index :=
      (isIndexSquashed_iff h).mp self'.isIndexSquashed_index
    refine ⟨(hmono _ hindex).1, fun i hi hle => ?_⟩
    by_contra hnot
    exact (hmono i ⟨hle, hnot⟩).2 hi
  · rintro ⟨hindex, hexclude⟩ i ⟨hle, hnot⟩
    exact ⟨hle.trans hindex, fun hi => hnot (hexclude i hi hle)⟩

/-- A well-formed body is its amount and what it squashes. -/
theorem WellFormed.ext (h : self.WellFormed) (h' : self'.WellFormed)
    (hamount : self.amount = self'.amount) (hsquashed : ∀ i, self.Squashed i ↔ self'.Squashed i) :
    self = self' := by
  obtain ⟨hindex, hexclude⟩ := (squashed_mono_iff h').mp fun i => (hsquashed i).mpr
  obtain ⟨hindex', hexclude'⟩ := (squashed_mono_iff h).mp fun i => (hsquashed i).mp
  have hmem : ∀ i, i ∈ self.exclude.items ↔ i ∈ self'.exclude.items := fun i =>
    ⟨fun hi => hexclude i hi ((h.below i hi).le.trans hindex'),
      fun hi => hexclude' i hi ((h'.below i hi).le.trans hindex)⟩
  have hperm : self.exclude.items.Perm self'.exclude.items :=
    (List.perm_ext_iff_of_nodup (h.exclude.sorted.imp ne_of_lt)
      (h'.exclude.sorted.imp ne_of_lt)).mpr hmem
  have hitems : self.exclude.items = self'.exclude.items :=
    hperm.eq_of_pairwise (fun _ _ _ _ hab hba => absurd hba hab.not_gt) h.exclude.sorted
      h'.exclude.sorted
  obtain ⟨amount, index, ⟨items⟩⟩ := self
  obtain ⟨amount', index', ⟨items'⟩⟩ := self'
  obtain rfl : amount = amount' := hamount
  obtain rfl : index = index' := le_antisymm hindex' hindex
  obtain rfl : items = items' := hitems
  rfl

/-- Once an index is no longer excluded, it is squashed. -/
lemma squash_excluded (h : self.WellFormed) (hmem : index ∈ self.exclude.items)
    (hremove : self.exclude.remove index = .ok exclude) (amount : UInt64) :
    (⟨amount, self.index, exclude⟩ : SquashBody).WellFormed ∧
      ∀ i, Squashed ⟨amount, self.index, exclude⟩ i ↔ self.Squashed i ∨ i = index := by
  have hitems := ((Indexes.remove_eq_ok h.exclude).mp hremove).2
  have hnodup : self.exclude.items.Nodup := h.exclude.sorted.imp ne_of_lt
  have herase : ∀ i, i ∈ exclude.items ↔ i ≠ index ∧ i ∈ self.exclude.items := fun i => by
    rw [hitems, hnodup.mem_erase_iff]
  refine ⟨⟨⟨?_, ?_⟩, ?_⟩, ?_⟩
  · exact hitems ▸ h.exclude.sorted.sublist List.erase_sublist
  · exact hitems ▸ (List.length_erase_le.trans h.exclude.short)
  · exact fun i hi => h.below i ((herase i).mp hi).2
  · intro i
    simp only [Squashed, herase]
    -- an excluded index is below the squash's own
    have hle := (h.below index hmem).le
    by_cases hi : i = index
    · simp [hi, hle]
    · simp [hi]

/-- No index is skipped from the squash's own up to the next. -/
lemma next_le_iff (hlt : self.index < index) (i : UInt64) :
    self.index + 1 ≤ i ↔ self.index < i := by
  have := index.toNat_lt
  rw [UInt64.lt_iff_toNat_lt] at hlt
  rw [UInt64.le_iff_toNat_le, UInt64.lt_iff_toNat_lt, UInt64.toNat_add]
  simp
  omega

/-- Once the squash moves up to an index, leaving out those between, that index is squashed. -/
lemma squash_later (h : self.WellFormed) (hlt : self.index < index)
    (hextend : self.exclude.extend usizeBits (self.index + 1) index = .ok exclude)
    (amount : UInt64) :
    (⟨amount, index, exclude⟩ : SquashBody).WellFormed ∧
      ∀ i, Squashed ⟨amount, index, exclude⟩ i ↔ self.Squashed i ∨ i = index := by
  have hnext : self.index + 1 ≤ index := (next_le_iff hlt index).mpr hlt
  obtain ⟨hitems, hlen⟩ := Indexes.extend_eq_ok hnext hextend h.exclude.short
  have hmem : ∀ i, i ∈ exclude.items ↔
      i ∈ self.exclude.items ∨ (self.index < i ∧ i < index) := fun i => by
    rw [hitems, List.mem_append, Indexes.mem_range hnext, next_le_iff hlt]
  refine ⟨⟨⟨?_, hlen⟩, ?_⟩, ?_⟩
  · rw [hitems, List.pairwise_append]
    refine ⟨h.exclude.sorted, Indexes.sorted_range hnext, fun a ha b hb => ?_⟩
    have hb' : self.index < b := (next_le_iff hlt b).mp ((Indexes.mem_range hnext).mp hb).1
    exact (h.below a ha).trans hb'
  · intro i hi
    rcases (hmem i).mp hi with hi | hi
    · exact (h.below i hi).trans hlt
    · exact hi.2
  · intro i
    simp only [Squashed, hmem]
    constructor
    · rintro ⟨hle, hnot⟩
      rcases hle.lt_or_eq with hi | hi
      · -- below the new index and not skipped, so at most the old one
        have hsi : ¬self.index < i := fun hs => hnot (Or.inr ⟨hs, hi⟩)
        exact Or.inl ⟨not_lt.mp hsi, fun hin => hnot (Or.inl hin)⟩
      · exact Or.inr hi
    · rintro (⟨hle, hnot⟩ | rfl)
      · refine ⟨hle.trans hlt.le, ?_⟩
        rintro (hin | ⟨hgt, -⟩)
        · exact hnot hin
        · exact absurd hle (not_le.mpr hgt)
      · refine ⟨le_rfl, ?_⟩
        rintro (hin | ⟨-, hself⟩)
        · exact absurd (h.below _ hin) (not_lt.mpr hlt.le)
        · exact absurd hself (lt_irrefl _)

/-- Squashing a cheque squashes its index, which was not squashed before, and nothing
else. -/
theorem squash_eq_ok (h : self.WellFormed)
    (hsquash : self.squash usizeBits index amount = .ok self') :
    self'.WellFormed ∧ ¬self.Squashed index ∧ self'.amount = self.amount + amount ∧
      self.index ≤ self'.index ∧ ∀ i, self'.Squashed i ↔ self.Squashed i ∨ i = index := by
  rw [squash] at hsquash
  by_cases hmem : index ∈ self.exclude.items
  · -- an excluded index: no longer excluded
    obtain ⟨exclude, hremove⟩ : ∃ exclude, self.exclude.remove index = .ok exclude :=
      ⟨⟨self.exclude.items.erase index⟩, (Indexes.remove_eq_ok h.exclude).mpr ⟨hmem, rfl⟩⟩
    simp only [hremove, Except.ok.injEq] at hsquash
    subst hsquash
    obtain ⟨hwf, hsquashed⟩ := squash_excluded h hmem hremove (self.amount + amount)
    exact ⟨hwf, fun hs => hs.2 hmem, rfl, le_rfl, hsquashed⟩
  · rw [Indexes.remove_eq_error h.exclude hmem] at hsquash
    simp only at hsquash
    split_ifs at hsquash with hge
    -- a later index: those between are excluded
    have hlt : self.index < index := not_le.mp hge
    split at hsquash
    · rename_i exclude hextend
      obtain rfl := Except.ok.inj hsquash
      obtain ⟨hwf, hsquashed⟩ := squash_later h hlt hextend (self.amount + amount)
      exact ⟨hwf, fun hs => absurd hs.1 (not_le.mpr hlt), rfl, hlt.le, hsquashed⟩
    · exact absurd hsquash (by simp)

/-! ### On the wire -/

/-- The body in CBOR, an array without a length. -/
def encode (self : SquashBody) : Bytes :=
  Cbor.framed (Cbor.uint self.amount ++ Cbor.uint self.index ++ self.exclude.encode)

/-- The fields, in the order of the array. -/
def decodeFields (b : Bytes) : Option (SquashBody × Bytes) := do
  let (amount, b) ← Cbor.readUInt b
  let (index, b) ← Cbor.readUInt b
  let (exclude, b) ← Indexes.decode b
  return (⟨amount, index, exclude⟩, b)

/-- The body in CBOR, which has to be well-formed. -/
def decode (b : Bytes) : Option (SquashBody × Bytes) := do
  let (⟨amount, index, exclude⟩, b) ← Cbor.readFramed decodeFields b
  let self ← (new amount index exclude).toOption
  return (self, b)

/-- A body is read back when it is well-formed, and not at all otherwise. -/
lemma decode_encode (self : SquashBody) (b : Bytes) :
    decode (self.encode ++ b) = if self.WellFormed then some (self, b) else none := by
  by_cases hexclude : self.exclude.WellFormed
  · have hfields : ∀ b, decodeFields
        (Cbor.uint self.amount ++ Cbor.uint self.index ++ self.exclude.encode ++ b) =
          some (self, b) := by
      simp [decodeFields, Indexes.decode_encode, hexclude]
    have hframed := Cbor.readFramed_framed b hfields
    simp only [decode, encode, hframed, Option.bind_eq_bind, Option.bind_some]
    split_ifs with h
    · simp [(new_eq_ok hexclude).mpr ⟨rfl, h⟩, Except.toOption]
    · cases hnew : new self.amount self.index self.exclude with
      | ok self' =>
        obtain ⟨rfl, hwf⟩ := (new_eq_ok hexclude).mp hnew
        exact absurd hwf h
      | error e => rfl
  · rw [if_neg fun h => hexclude h.exclude]
    simp [decode, encode, Cbor.readFramed, Cbor.framed, decodeFields, Indexes.decode_encode,
      hexclude]

lemma wellFormed_of_decode {b b' : Bytes} (h : decode b = some (self, b')) : self.WellFormed := by
  simp only [decode, Option.bind_eq_bind, Option.bind_eq_some_iff, Option.pure_def,
    Option.some.injEq, Prod.mk.injEq] at h
  obtain ⟨⟨⟨amount, index, exclude⟩, rest⟩, hframed, new', hnew, rfl, -⟩ := h
  have hexclude : exclude.WellFormed := by
    simp only [Cbor.readFramed, decodeFields, Option.bind_eq_bind, Option.bind_eq_some_iff,
      Option.pure_def, Option.some.injEq, Prod.mk.injEq] at hframed
    obtain ⟨_, _, _, ⟨_, _, _, _, ⟨exclude', rest'⟩, hdecode, rfl⟩, _, _, heq, _⟩ := hframed
    obtain ⟨-, -, rfl⟩ := SquashBody.mk.inj heq
    exact Indexes.wellFormed_of_decode hdecode
  exact ((new_eq_ok hexclude).mp (Result.toOption_eq_some.mp hnew)).2

end SquashBody

end Konduit.Data
