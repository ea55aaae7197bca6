import Konduit.Lib.BinarySearch
import Konduit.Lib.Cbor
import Konduit.Lib.Result
import Konduit.Lib.Word

/-!
# Lists of excluded indexes

A list of indexes as a squash excludes them.  The constructor and the decoder check that
the list is short and increases; the fields are read as they are by the derived
deserialiser, so a value need not be well-formed (`Indexes.WellFormed`).
-/

open Lib

namespace Konduit.Data

/-- The most indexes that a squash excludes. -/
def maxExcludeLength : ℕ := 10

/-- Why indexes are refused. -/
inductive IndexesError where
  | length
  | lessThanLast
  | order
  | duplicate
  | noIndex
  /-- No error of the source: a vector does not grow to this capacity, and the thread
  panics. -/
  | capacity
deriving DecidableEq

/-- A list of indexes, meant to be short and to increase. -/
structure Indexes where
  items : List UInt64
deriving DecidableEq

namespace Indexes

/-- No indexes. -/
def empty : Indexes := ⟨[]⟩

/-- The last index. -/
def last (self : Indexes) : Option UInt64 := self.items.getLast?

/-- The check of all windows of two. -/
def windowsIncrease : List UInt64 → Bool
  | a :: b :: items => a < b && windowsIncrease (b :: items)
  | _ => true

/-- Take a list that is short and increases. -/
def new (items : List UInt64) : Except IndexesError Indexes :=
  if items.length > maxExcludeLength then .error .length
  else if windowsIncrease items then .ok ⟨items⟩
  else .error .order

/-- The indexes from one up to, but not including, another. -/
def range (lo hi : UInt64) : List UInt64 :=
  (List.range (hi - lo).toNat).map fun k => lo + UInt64.ofNat k

/-- Append a range to a vector on a platform with this many address bits. -/
def extendVec (usizeBits : ℕ) (items : List UInt64) (lo hi : UInt64) :
    Except IndexesError Indexes :=
  if (items.length + (hi - lo).toNat) * 8 < 2 ^ (usizeBits - 1) then .ok ⟨items ++ range lo hi⟩
  else .error .capacity

/-- Append the indexes from `lo` up to `hi`.  The length is checked in machine words. -/
def extend (usizeBits : ℕ) (self : Indexes) (lo hi : UInt64) : Except IndexesError Indexes :=
  match compare hi lo with
  | .lt => .error .order
  | .eq => .ok self
  | .gt =>
    if (self.items.length + (hi - lo).toNat) % 2 ^ usizeBits > maxExcludeLength then
      .error .length
    else
      match self.last with
      | some last =>
        if last < lo then extendVec usizeBits self.items lo hi else .error .lessThanLast
      | none => extendVec usizeBits self.items lo hi

/-- Insert an index that is not there, where it belongs. -/
def insert (self : Indexes) (item : UInt64) : Except IndexesError Indexes :=
  if self.items.length ≥ maxExcludeLength then .error .length
  else
    match BinarySearch.listSearch self.items item with
    | .ok _ => .error .duplicate
    | .error index => .ok ⟨self.items.insertIdx index item⟩

/-- Remove an index that is there. -/
def remove (self : Indexes) (item : UInt64) : Except IndexesError Indexes :=
  match BinarySearch.listSearch self.items item with
  | .ok index => .ok ⟨self.items.eraseIdx index⟩
  | .error _ => .error .noIndex

/-- The index is there, as a search finds. -/
def has (self : Indexes) (item : UInt64) : Bool :=
  match BinarySearch.listSearch self.items item with
  | .ok _ => true
  | .error _ => false

/-! ### Well-formed lists -/

/-- What the constructor checks. -/
structure WellFormed (indexes : Indexes) : Prop where
  sorted : indexes.items.Pairwise (· < ·)
  short : indexes.items.length ≤ maxExcludeLength

variable {self self' : Indexes} {item : UInt64}

lemma windowsIncrease_iff (items : List UInt64) :
    windowsIncrease items = true ↔ items.Pairwise (· < ·) := by
  rw [← List.isChain_iff_pairwise]
  induction items with
  | nil => simp [windowsIncrease]
  | cons a items ih =>
    cases items with
    | nil => simp [windowsIncrease]
    | cons b items => simp [windowsIncrease, ih]

lemma new_eq_ok {items : List UInt64} :
    new items = .ok self ↔ self = ⟨items⟩ ∧ self.WellFormed := by
  rw [new]
  split_ifs with hlen hwin
  · constructor
    · simp
    · rintro ⟨rfl, h⟩
      exact absurd h.short (not_le.mpr hlen)
  · rw [windowsIncrease_iff] at hwin
    constructor
    · intro h
      obtain rfl : (⟨items⟩ : Indexes) = self := Except.ok.inj h
      exact ⟨rfl, hwin, not_lt.mp hlen⟩
    · rintro ⟨rfl, -⟩
      rfl
  · constructor
    · simp
    · rintro ⟨rfl, h⟩
      exact absurd ((windowsIncrease_iff items).mpr h.sorted) hwin

instance (self : Indexes) : Decidable self.WellFormed :=
  decidable_of_iff (self.items.Pairwise (· < ·) ∧ self.items.length ≤ maxExcludeLength)
    ⟨fun h => ⟨h.1, h.2⟩, fun h => ⟨h.sorted, h.short⟩⟩

/-- What is found is an item, on any list. -/
lemma mem_of_has (h : self.has item = true) : item ∈ self.items := by
  rw [has] at h
  split at h
  · rename_i hsearch
    exact BinarySearch.mem_of_listSearch hsearch
  · exact absurd h (by simp)

/-- On a sorted list, membership. -/
lemma has_iff (h : self.WellFormed) : self.has item = true ↔ item ∈ self.items := by
  rw [has]
  rcases BinarySearch.listSearch_spec h.sorted item with
    ⟨pre, post, heq, hok⟩ | ⟨pre, post, heq, herr, hpre, hpost⟩
  · rw [hok, heq]
    simp
  · rw [herr, heq]
    simp only [Bool.false_eq_true, List.mem_append, false_iff, not_or]
    exact ⟨fun hmem => lt_irrefl _ (hpre item hmem), fun hmem => lt_irrefl _ (hpost item hmem)⟩

/-- On a sorted list, deletion. -/
lemma remove_eq_ok (h : self.WellFormed) :
    self.remove item = .ok self' ↔ item ∈ self.items ∧ self'.items = self.items.erase item := by
  rw [remove]
  rcases BinarySearch.listSearch_spec h.sorted item with
    ⟨pre, post, heq, hok⟩ | ⟨pre, post, heq, herr, hpre, hpost⟩
  · have hnotin : item ∉ pre := by
      intro hmem
      have hsorted := heq ▸ h.sorted
      exact lt_irrefl _ ((List.pairwise_append.mp hsorted).2.2 item hmem item (by simp))
    have herase : self.items.erase item = pre ++ post := by
      rw [heq, List.erase_append_right _ hnotin, List.erase_cons_head]
    have hidx : self.items.eraseIdx pre.length = pre ++ post := by
      rw [heq, List.eraseIdx_append_of_length_le le_rfl]
      simp
    rw [hok, herase]
    simp only [hidx, Except.ok.injEq]
    obtain ⟨items⟩ := self'
    simp [heq, eq_comm]
  · simp only [herr, reduceCtorEq, false_iff, not_and]
    intro hmem
    rw [heq, List.mem_append] at hmem
    rcases hmem with hmem | hmem
    · exact absurd (hpre item hmem) (lt_irrefl _)
    · exact absurd (hpost item hmem) (lt_irrefl _)

lemma remove_eq_error (h : self.WellFormed) (hitem : item ∉ self.items) :
    self.remove item = .error .noIndex := by
  cases hr : self.remove item with
  | ok self' => exact absurd ((remove_eq_ok h).mp hr).1 hitem
  | error e =>
    rw [remove] at hr
    split at hr <;> simp_all

/-! ### Ranges -/

variable {lo hi : UInt64}

lemma mem_range (h : lo ≤ hi) : item ∈ range lo hi ↔ lo ≤ item ∧ item < hi := by
  have hlo := UInt64.toNat_lt lo
  have hhi := UInt64.toNat_lt hi
  have hdiff : (hi - lo).toNat = hi.toNat - lo.toNat := UInt64.toNat_sub_of_le hi lo h
  simp only [range, List.mem_map, List.mem_range, hdiff, UInt64.le_iff_toNat_le,
    UInt64.lt_iff_toNat_lt]
  constructor
  · rintro ⟨k, hk, rfl⟩
    rw [UInt64.toNat_add, UInt64.toNat_ofNat_of_lt' (by norm_num; omega)]
    omega
  · rintro ⟨hle, hlt⟩
    refine ⟨item.toNat - lo.toNat, by omega, ?_⟩
    rw [← UInt64.toNat_inj, UInt64.toNat_add, UInt64.toNat_ofNat_of_lt' (by norm_num; omega)]
    omega

lemma sorted_range (h : lo ≤ hi) : (range lo hi).Pairwise (· < ·) := by
  have hlo := UInt64.toNat_lt lo
  have hhi := UInt64.toNat_lt hi
  have hdiff : (hi - lo).toNat = hi.toNat - lo.toNat := UInt64.toNat_sub_of_le hi lo h
  rw [range, List.pairwise_map]
  refine List.pairwise_lt_range.imp_of_mem fun {a b} ha hb hab => ?_
  rw [List.mem_range, hdiff] at ha hb
  rw [UInt64.lt_iff_toNat_lt, UInt64.toNat_add, UInt64.toNat_add,
    UInt64.toNat_ofNat_of_lt' (by norm_num; omega), UInt64.toNat_ofNat_of_lt' (by norm_num; omega)]
  omega

@[simp] lemma length_range (lo hi : UInt64) : (range lo hi).length = (hi - lo).toNat := by
  simp [range]

/-- What a successful extension above the last item appends, within the length bound. -/
lemma extend_eq_ok {usizeBits : ℕ} (hlohi : lo ≤ hi)
    (h : self.extend usizeBits lo hi = .ok self') (hlen : self.items.length ≤ maxExcludeLength) :
    self'.items = self.items ++ range lo hi ∧ self'.items.length ≤ maxExcludeLength := by
  have hvec : (self.items.length + (hi - lo).toNat) % 2 ^ usizeBits ≤ maxExcludeLength →
      extendVec usizeBits self.items lo hi = .ok self' →
      self'.items = self.items ++ range lo hi ∧ self'.items.length ≤ maxExcludeLength := by
    intro hmod hv
    rw [extendVec] at hv
    split_ifs at hv with hcap
    obtain rfl := Except.ok.inj hv
    have hpow : 2 ^ (usizeBits - 1) ≤ 2 ^ usizeBits := Nat.pow_le_pow_right (by norm_num) (by omega)
    rw [Nat.mod_eq_of_lt (by omega)] at hmod
    exact ⟨rfl, by simpa using hmod⟩
  rw [extend] at h
  split at h
  · exact absurd h (by simp)
  · rename_i heq
    obtain rfl : hi = lo := compare_eq_iff_eq.mp heq
    obtain rfl := Except.ok.inj h
    simp [range, hlen]
  · split_ifs at h with hmod
    split at h
    · split_ifs at h
      exact hvec (not_lt.mp hmod) h
    · exact hvec (not_lt.mp hmod) h

/-! ### On the wire -/

/-- The indexes in CBOR, as a list. -/
def encode (self : Indexes) : Bytes := Cbor.list Cbor.uint self.items

/-- Indexes in CBOR, which have to be short and to increase. -/
def decode (b : Bytes) : Option (Indexes × Bytes) := do
  let (items, b) ← Cbor.readItems Cbor.readUInt b
  let self ← (new items).toOption
  return (self, b)

/-- A list is read back when it is well-formed, and not at all otherwise. -/
lemma decode_encode (self : Indexes) (b : Bytes) :
    decode (self.encode ++ b) = if self.WellFormed then some (self, b) else none := by
  simp only [decode, encode, Cbor.readItems_list _ fun n _ => Cbor.reads_uint n,
    Option.bind_eq_bind, Option.bind_some]
  split_ifs with h
  · simp [new_eq_ok.mpr ⟨rfl, h⟩, Except.toOption]
  · cases hn : new self.items with
    | ok self' =>
      obtain ⟨rfl, hwf⟩ := new_eq_ok.mp hn
      exact absurd hwf h
    | error e => rfl

lemma wellFormed_of_decode {b b' : Bytes} (h : decode b = some (self, b')) : self.WellFormed := by
  simp only [decode, Option.bind_eq_bind, Option.bind_eq_some_iff, Option.pure_def,
    Option.some.injEq, Prod.mk.injEq] at h
  obtain ⟨⟨items, rest⟩, -, new', hnew, rfl, -⟩ := h
  exact (new_eq_ok.mp (Result.toOption_eq_some.mp hnew)).2

end Indexes

end Konduit.Data
