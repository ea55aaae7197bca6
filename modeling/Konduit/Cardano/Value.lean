import Mathlib.Algebra.Order.BigOperators.Group.List
import Mathlib.Algebra.BigOperators.Group.List.Basic
import Mathlib.Data.List.Nodup
import Konduit.Lib.Bytes
import Konduit.Lib.Checked
import Konduit.Lib.OrdMap

/-!
# Multi-asset values

A value holds lovelace, and quantities of native assets by policy and by name.  The maps of a value
may hold more than its quantities tell: null quantities, and policies without assets.  A value
without these is normal, and normal values with the same quantities are the same
(`Normal.eq_of_quantity`).
-/

open Lib

namespace Konduit.Cardano

instance Value.instZero : Zero UInt64 := ⟨0⟩

instance Value.instZeroInt64 : Zero Int64 := ⟨0⟩

instance Value.instTransOrd : Std.TransOrd (BytesN 28) := inferInstance

instance Value.instLawfulEqOrd : Std.LawfulEqOrd (BytesN 28) := inferInstance

/-- Quantities by script hash and asset name. -/
abbrev Assets (Q : Type) := OrdMap (BytesN 28) (OrdMap Bytes Q)

instance Assets.instDecidableEq {Q : Type} [DecidableEq Q] : DecidableEq (Assets Q) :=
  inferInstance

/-- A multi-asset value: of an output in `u64`, of a mint in `i64`. -/
@[ext] structure Value (Q : Type) where
  lovelace : UInt64
  assets : Assets Q
deriving DecidableEq

namespace Assets

variable {Q : Type} {a b : Assets Q} {p : BytesN 28} {n : Bytes}

section Quantity

variable [Zero Q]

/-- What there is of an asset; what is missing counts as none. -/
def quantity (a : Assets Q) (p : BytesN 28) (n : Bytes) : Q := (a[p]?.bind (·[n]?)).getD 0

lemma quantity_of_getElem? {inner : OrdMap Bytes Q} (h : a[p]? = some inner) (n : Bytes) :
    quantity a p n = inner[n]?.getD 0 := by
  rw [quantity, h, Option.bind_some]

lemma quantity_of_none (h : a[p]? = none) (n : Bytes) : quantity a p n = 0 := by
  rw [quantity, h, Option.bind_none, Option.getD_none]

/-- No null quantities, and no policies without assets. -/
structure Normal (a : Assets Q) : Prop where
  ne_zero : ∀ (p : BytesN 28) (inner : OrdMap Bytes Q), a[p]? = some inner →
    ∀ n : Bytes, inner[n]? ≠ some 0
  ne_empty : ∀ (p : BytesN 28) (inner : OrdMap Bytes Q), a[p]? = some inner → inner ≠ ∅

namespace Normal

lemma empty : Normal (∅ : Assets Q) := by
  constructor <;> simp

/-- A policy that is there has some of an asset. -/
lemma exists_quantity_ne_zero {inner : OrdMap Bytes Q} (ha : Normal a) (h : a[p]? = some inner) :
    ∃ n, quantity a p n ≠ 0 := by
  by_contra hall
  push Not at hall
  refine ha.ne_empty p inner h (Std.ExtTreeMap.ext_getElem? fun n => ?_)
  have hn := hall n
  rw [quantity_of_getElem? h] at hn
  rw [Std.ExtTreeMap.getElem?_empty]
  cases hq : inner[n]? with
  | none => rfl
  | some q =>
    rw [hq, Option.getD_some] at hn
    rw [hn] at hq
    exact absurd hq (ha.ne_zero p inner h n)

/-- What is the same in every quantity is the same. -/
theorem eq_of_quantity (ha : Normal a) (hb : Normal b)
    (h : ∀ p n, quantity a p n = quantity b p n) : a = b := by
  refine Std.ExtTreeMap.ext_getElem? fun p => ?_
  cases hp : a[p]? with
  | none =>
    cases hp' : b[p]? with
    | none => rfl
    | some inner =>
      obtain ⟨n, hn⟩ := hb.exists_quantity_ne_zero hp'
      exact absurd ((h p n).symm.trans (quantity_of_none hp n)) hn
  | some inner =>
    cases hp' : b[p]? with
    | none =>
      obtain ⟨n, hn⟩ := ha.exists_quantity_ne_zero hp
      exact absurd ((h p n).trans (quantity_of_none hp' n)) hn
    | some inner' =>
      refine congrArg some (Std.ExtTreeMap.ext_getElem? fun n => ?_)
      have hn := h p n
      rw [quantity_of_getElem? hp, quantity_of_getElem? hp'] at hn
      have hzero := ha.ne_zero p inner hp n
      have hzero' := hb.ne_zero p inner' hp' n
      cases hq : inner[n]? <;> cases hq' : inner'[n]? <;> rw [hq, hq'] at hn <;> simp_all

end Normal

end Quantity

/-! ### Policies that are left without assets -/

section FilterMap

variable {R : Type} (f : OrdMap Bytes Q → OrdMap Bytes R)

/-- The assets of each policy, where there are any left. -/
lemma getElem?_filterMap_isEmpty_eq_some_iff {inner : OrdMap Bytes R} :
    (a.filterMap fun _ inner => if (f inner).isEmpty then none else some (f inner))[p]? =
        some inner ↔
      inner ≠ ∅ ∧ ∃ inner', a[p]? = some inner' ∧ f inner' = inner := by
  rw [Std.ExtTreeMap.getElem?_filterMap', Option.bind_eq_some_iff]
  constructor
  · rintro ⟨inner', hp, h⟩
    rw [Option.ite_none_left_eq_some, Std.ExtTreeMap.isEmpty_iff] at h
    obtain ⟨hne, h⟩ := h
    cases h
    exact ⟨hne, inner', hp, rfl⟩
  · rintro ⟨hne, inner', hp, rfl⟩
    refine ⟨inner', hp, if_neg ?_⟩
    rwa [Std.ExtTreeMap.isEmpty_iff]

/-- A policy that is left out counts for nothing, like its empty assets. -/
lemma quantity_filterMap_isEmpty [Zero R] (p : BytesN 28) (n : Bytes) :
    quantity (a.filterMap fun _ inner => if (f inner).isEmpty then none else some (f inner)) p n =
      (a[p]?.bind fun inner => (f inner)[n]?).getD 0 := by
  cases hp : a[p]? with
  | none =>
    rw [quantity_of_none, Option.bind_none, Option.getD_none]
    rw [Std.ExtTreeMap.getElem?_filterMap', hp, Option.bind_none]
  | some inner =>
    rw [Option.bind_some]
    by_cases hempty : f inner = ∅
    · rw [quantity_of_none, hempty, Std.ExtTreeMap.getElem?_empty, Option.getD_none]
      rw [Std.ExtTreeMap.getElem?_filterMap', hp, Option.bind_some, hempty]
      rfl
    · exact quantity_of_getElem?
        ((getElem?_filterMap_isEmpty_eq_some_iff f).mpr ⟨hempty, inner, hp, rfl⟩) n

end FilterMap

/-! ### Without null entries -/

section Prune

variable [Zero Q] [DecidableEq Q]

/-- The entries of a policy that are not null. -/
def nonNull (inner : OrdMap Bytes Q) : OrdMap Bytes Q := inner.filter fun _ q => q != 0

lemma getElem?_nonNull {inner : OrdMap Bytes Q} {n : Bytes} :
    (nonNull inner)[n]? = inner[n]?.filter (· != 0) := by
  rw [nonNull, Std.ExtTreeMap.getElem?_filter']

lemma getD_nonNull {inner : OrdMap Bytes Q} (n : Bytes) :
    (nonNull inner)[n]?.getD 0 = inner[n]?.getD 0 := by
  rw [getElem?_nonNull]
  cases inner[n]? with
  | none => rfl
  | some q => by_cases hq : q = 0 <;> simp [Option.filter, hq]

lemma nonNull_eq_self {inner : OrdMap Bytes Q} (h : ∀ n : Bytes, inner[n]? ≠ some 0) :
    nonNull inner = inner := by
  refine Std.ExtTreeMap.ext_getElem? fun n => ?_
  rw [getElem?_nonNull]
  cases hq : inner[n]? with
  | none => rfl
  | some q =>
    have hne : q ≠ 0 := fun heq => h n (heq ▸ hq)
    simp [Option.filter, hne]

lemma nonNull_ne_zero {inner : OrdMap Bytes Q} {n : Bytes} : (nonNull inner)[n]? ≠ some 0 := by
  rw [getElem?_nonNull]
  intro h
  exact absurd (Option.filter_eq_some_iff.mp h).2 (by simp)

lemma nonNull_nonNull (inner : OrdMap Bytes Q) : nonNull (nonNull inner) = nonNull inner :=
  nonNull_eq_self fun _ => nonNull_ne_zero

lemma nonNull_ne_empty_iff {inner : OrdMap Bytes Q} :
    nonNull inner ≠ ∅ ↔ ∃ (n : Bytes) (q : Q), inner[n]? = some q ∧ q ≠ 0 := by
  constructor
  · intro hne
    by_contra hall
    push Not at hall
    refine hne (Std.ExtTreeMap.ext_getElem? fun n => ?_)
    rw [getElem?_nonNull, Std.ExtTreeMap.getElem?_empty, Option.filter_eq_none_iff]
    intro q hq
    simp [hall n q hq]
  · rintro ⟨n, q, hq, hne⟩ hempty
    have hn := @getElem?_nonNull _ _ _ inner n
    rw [hempty, hq, Option.filter_some_pos (by simpa using hne)] at hn
    cases hn

/-- Remove the null quantities, and with them the policies that are left without assets. -/
def pruneNullValues (a : Assets Q) : Assets Q :=
  a.filterMap fun _ inner => if (nonNull inner).isEmpty then none else some (nonNull inner)

lemma getElem?_pruneNullValues_eq_some_iff {inner : OrdMap Bytes Q} :
    (pruneNullValues a)[p]? = some inner ↔
      inner ≠ ∅ ∧ ∃ inner', a[p]? = some inner' ∧ nonNull inner' = inner :=
  getElem?_filterMap_isEmpty_eq_some_iff nonNull

lemma normal_pruneNullValues (a : Assets Q) : Normal (pruneNullValues a) where
  ne_zero p inner h n := by
    obtain ⟨-, inner', -, rfl⟩ := getElem?_pruneNullValues_eq_some_iff.mp h
    exact nonNull_ne_zero
  ne_empty p inner h := (getElem?_pruneNullValues_eq_some_iff.mp h).1

@[simp] lemma quantity_pruneNullValues (a : Assets Q) (p : BytesN 28) (n : Bytes) :
    quantity (pruneNullValues a) p n = quantity a p n := by
  rw [pruneNullValues, quantity_filterMap_isEmpty nonNull]
  cases hp : a[p]? with
  | none => exact (quantity_of_none hp n).symm
  | some inner => exact (getD_nonNull n).trans (quantity_of_getElem? hp n).symm

lemma pruneNullValues_of_normal (h : Normal a) : pruneNullValues a = a :=
  (normal_pruneNullValues a).eq_of_quantity h (quantity_pruneNullValues a)

end Prune

/-! ### Addition -/

section Add

variable [Add Q]

/-- Add to a policy's assets. -/
def addInner (inner lhs : OrdMap Bytes Q) : OrdMap Bytes Q :=
  OrdMap.update (fun _ quantity q => some (q.elim quantity (· + quantity))) inner lhs

/-- Add the entries, null ones and all. -/
def addEntries (a b : Assets Q) : Assets Q :=
  OrdMap.update (fun _ inner lhs => some (lhs.elim inner (addInner inner))) b a

end Add

section Lawful

variable [Zero Q] [Add Q] [@Std.LawfulIdentity Q (· + ·) 0]

lemma add_null (q : Q) : q + 0 = q := @Std.LawfulRightIdentity.right_id _ _ (· + ·) 0 _ q

lemma null_add (q : Q) : 0 + q = q := @Std.LawfulLeftIdentity.left_id _ _ (· + ·) 0 _ q

lemma getD_addInner (inner lhs : OrdMap Bytes Q) (n : Bytes) :
    (addInner inner lhs)[n]?.getD 0 = lhs[n]?.getD 0 + inner[n]?.getD 0 := by
  rw [addInner, OrdMap.getElem?_update]
  cases inner[n]? with
  | none => simp [add_null]
  | some q => cases lhs[n]? <;> simp [null_add]

lemma quantity_addEntries (a b : Assets Q) (p : BytesN 28) (n : Bytes) :
    quantity (addEntries a b) p n = quantity a p n + quantity b p n := by
  rw [quantity, addEntries, OrdMap.getElem?_update]
  cases hb : b[p]? with
  | none => simp [quantity, hb, add_null]
  | some inner =>
    rw [quantity_of_getElem? hb]
    cases ha : a[p]? with
    | none => simp [quantity, ha, null_add]
    | some lhs => simp [quantity, ha, getD_addInner]

end Lawful

end Assets

namespace Value

variable {Q : Type}

/-- A value of lovelace alone. -/
def new (lovelace : UInt64) : Value Q := ⟨lovelace, ∅⟩

/-- There is neither lovelace nor any policy. -/
def isEmpty (v : Value Q) : Bool := v.lovelace == 0 && v.assets.isEmpty

/-- Attach assets; null quantities are left out, and what is there already is replaced. -/
def withAssets [Zero Q] [DecidableEq Q] (v : Value Q)
    (assets : List (BytesN 28 × List (Bytes × Q))) : Value Q where
  lovelace := v.lovelace
  assets := assets.foldl
    (fun m x =>
      m.alter x.1 fun entry =>
        some ((x.2.filter fun y => y.2 != 0).foldl (fun m y => m.insert y.1 y.2) (entry.getD ∅)))
    v.assets

/-- Attached to lovelace alone, a map keeps its policies, also those that have no other assets than
null ones. -/
lemma getElem?_withAssets_new [Zero Q] [DecidableEq Q] (lovelace : UInt64) (assets : Assets Q)
    (p : BytesN 28) :
    ((new lovelace).withAssets (assets.toList.map fun x => (x.1, x.2.toList))).assets[p]? =
      assets[p]?.map Assets.nonNull := by
  have hassets : ((new lovelace).withAssets (assets.toList.map fun x => (x.1, x.2.toList))).assets =
      OrdMap.update (fun _ (inner : OrdMap Bytes Q) entry =>
        some ((inner.toList.filter fun y => y.2 != 0).foldl (fun m y => m.insert y.1 y.2)
          (entry.getD ∅))) assets ∅ := by
    rw [withAssets, List.foldl_map, OrdMap.update, Std.ExtTreeMap.foldl_eq_foldl_toList]
    rfl
  rw [hassets, OrdMap.getElem?_update]
  cases assets[p]? with
  | none => exact Std.ExtTreeMap.getElem?_empty
  | some inner =>
    simp only [Std.ExtTreeMap.getElem?_empty, Option.getD_none, Option.map_some]
    exact congrArg some (OrdMap.foldl_insert_filter (· != 0) inner)

/-- Attached to lovelace alone, assets without null entries stay as they are. -/
lemma withAssets_new_of_normal [Zero Q] [DecidableEq Q] (lovelace : UInt64) {assets : Assets Q}
    (h : assets.Normal) :
    (new lovelace).withAssets (assets.toList.map fun x => (x.1, x.2.toList)) =
      ⟨lovelace, assets⟩ := by
  refine Value.ext rfl (Std.ExtTreeMap.ext_getElem? fun p => ?_)
  rw [getElem?_withAssets_new]
  cases hp : assets[p]? with
  | none => rfl
  | some inner => rw [Option.map_some, Assets.nonNull_eq_self (h.ne_zero p inner hp)]

section Add

variable [Zero Q] [DecidableEq Q] [Add Q]

/-- Add a value, removing the entries that come out null. -/
def add (lhs rhs : Value Q) : Value Q where
  lovelace := lhs.lovelace + rhs.lovelace
  assets := (lhs.assets.addEntries rhs.assets).pruneNullValues

lemma normal_add (lhs rhs : Value Q) : (lhs.add rhs).assets.Normal :=
  Assets.normal_pruneNullValues _

end Add

lemma quantity_add [Zero Q] [DecidableEq Q] [Add Q] [@Std.LawfulIdentity Q (· + ·) 0]
    (lhs rhs : Value Q) (p : BytesN 28) (n : Bytes) :
    (lhs.add rhs).assets.quantity p n = lhs.assets.quantity p n + rhs.assets.quantity p n := by
  rw [add, Assets.quantity_pruneNullValues, Assets.quantity_addEntries]

/-! ### Subtraction -/

/-- Subtraction that is refused where it has no result. -/
class CheckedSub (Q : Type) where
  checkedSub : Q → Q → Option Q

instance : CheckedSub UInt64 := ⟨Word.checkedSub⟩

/-- Why a value is not subtracted. -/
inductive SubError (Q : Type) where
  | insufficientLovelace (lhs rhs : UInt64)
  | unknownScriptHash (scriptHash : BytesN 28)
  | unknownAsset (scriptHash : BytesN 28) (assetName : Bytes)
  | insufficientQuantity (scriptHash : BytesN 28) (assetName : Bytes) (lhs rhs : Q)
deriving DecidableEq

section CheckedSub

variable [CheckedSub Q]

/-- Subtract a quantity, where there is enough. -/
def subQuantity (scriptHash : BytesN 28) (assetName : Bytes) (rhs lhs : Q) :
    Except (SubError Q) Unit × Q :=
  match CheckedSub.checkedSub lhs rhs with
  | some quantity => (.ok (), quantity)
  | none => (.error (.insufficientQuantity scriptHash assetName lhs rhs), lhs)

/-- Subtract the assets of a policy one by one, up to the first that is missing or too few. -/
def subAssets (scriptHash : BytesN 28) (rhs lhs : OrdMap Bytes Q) :
    Except (SubError Q) Unit × OrdMap Bytes Q :=
  OrdMap.sweep (.unknownAsset scriptHash) (subQuantity scriptHash) rhs.toList lhs

/-- Subtract in place: the outcome, with what it leaves of the left-hand side. -/
def checkedSub [Zero Q] [DecidableEq Q] (lhs rhs : Value Q) :
    Except (SubError Q) Unit × Value Q :=
  match Word.checkedSub lhs.lovelace rhs.lovelace with
  | none => (.error (.insufficientLovelace lhs.lovelace rhs.lovelace), lhs)
  | some lovelace =>
    match OrdMap.sweep .unknownScriptHash subAssets rhs.assets.toList lhs.assets with
    | (.error e, assets) => (.error e, ⟨lovelace, assets⟩)
    | (.ok (), assets) => (.ok (), ⟨lovelace, Assets.pruneNullValues assets⟩)

end CheckedSub

/-! ### Quantities -/

/-- What a value has a quantity of. -/
inductive Unit where
  | lovelace
  | asset (scriptHash : BytesN 28) (assetName : Bytes)
deriving DecidableEq

/-- The quantity that a value holds. -/
def quantityOf (value : Value UInt64) : Unit → UInt64
  | .lovelace => value.lovelace
  | .asset scriptHash assetName => value.assets.quantity scriptHash assetName

@[simp] lemma quantityOf_new_lovelace (l : UInt64) : quantityOf (new l) .lovelace = l := rfl

@[simp] lemma quantityOf_new_asset (l : UInt64) (p : BytesN 28) (n : Bytes) :
    quantityOf (new l) (.asset p n) = 0 := by
  rw [quantityOf, Assets.quantity_of_none]
  rfl

lemma quantityOf_add (lhs rhs : Value UInt64) (unit : Unit) :
    quantityOf (lhs.add rhs) unit = quantityOf lhs unit + quantityOf rhs unit := by
  cases unit with
  | lovelace => rfl
  | asset p n => exact quantity_add lhs rhs p n

/-- Values without null entries are what they hold of each unit. -/
theorem eq_of_quantityOf {v w : Value UInt64} (hv : v.assets.Normal) (hw : w.assets.Normal)
    (h : ∀ unit, quantityOf v unit = quantityOf w unit) : v = w :=
  Value.ext (h .lovelace) (hv.eq_of_quantity hw fun p n => h (.asset p n))

/-- The exact total of what values hold. -/
def totalOf {T : Type} (valueOf : T → Value UInt64) (l : List T) (unit : Unit) : ℕ :=
  (l.map fun t => (quantityOf (valueOf t) unit).toNat).sum

@[simp] lemma totalOf_nil {T : Type} (valueOf : T → Value UInt64) (unit : Unit) :
    totalOf valueOf [] unit = 0 := rfl

@[simp] lemma totalOf_cons {T : Type} (valueOf : T → Value UInt64) (t : T) (l : List T)
    (unit : Unit) :
    totalOf valueOf (t :: l) unit = (quantityOf (valueOf t) unit).toNat + totalOf valueOf l unit :=
  rfl

@[simp] lemma totalOf_append {T : Type} (valueOf : T → Value UInt64) (l l' : List T)
    (unit : Unit) :
    totalOf valueOf (l ++ l') unit = totalOf valueOf l unit + totalOf valueOf l' unit := by
  simp [totalOf]

lemma totalOf_map {T : Type} (valueOf : T → Value UInt64) (l : List T) (unit : Unit) :
    totalOf id (l.map valueOf) unit = totalOf valueOf l unit := by
  rw [totalOf, totalOf, List.map_map]
  rfl

/-- What is drawn from a list holds no more. -/
lemma totalOf_le_of_subperm {T : Type} {valueOf : T → Value UInt64} {l l' : List T}
    (h : l.Subperm l') (unit : Unit) : totalOf valueOf l unit ≤ totalOf valueOf l' unit := by
  obtain ⟨l₁, hperm, hsub⟩ := h
  rw [totalOf, totalOf, ← (hperm.map _).sum_eq]
  exact (hsub.map _).sum_le_sum fun _ _ => Nat.zero_le _

/-- There is enough of every unit. -/
def Covers (value target : Value UInt64) : Prop :=
  ∀ unit, quantityOf target unit ≤ quantityOf value unit

/-- A value without null entries is empty when it holds nothing. -/
lemma isEmpty_iff {v : Value UInt64} (h : v.assets.Normal) :
    v.isEmpty ↔ ∀ unit, quantityOf v unit = 0 := by
  rw [isEmpty, Bool.and_eq_true, beq_iff_eq, Std.ExtTreeMap.isEmpty_iff]
  constructor
  · rintro ⟨hlovelace, hassets⟩ unit
    cases unit with
    | lovelace => exact hlovelace
    | asset p n =>
      rw [quantityOf, hassets, Assets.quantity_of_none Std.ExtTreeMap.getElem?_empty]
  · intro hall
    refine ⟨hall .lovelace, h.eq_of_quantity Assets.Normal.empty fun p n => ?_⟩
    rw [Assets.quantity_of_none Std.ExtTreeMap.getElem?_empty]
    exact hall (.asset p n)

/-- The value without its null entries. -/
def pruned (v : Value UInt64) : Value UInt64 := ⟨v.lovelace, v.assets.pruneNullValues⟩

lemma quantityOf_pruned (v : Value UInt64) (unit : Unit) :
    quantityOf v.pruned unit = quantityOf v unit := by
  cases unit with
  | lovelace => rfl
  | asset p n => exact Assets.quantity_pruneNullValues v.assets p n

/-! ### Entries -/

/-- The entries of the assets, policy by policy. -/
def entries (assets : Assets UInt64) : List ((BytesN 28 × Bytes) × UInt64) :=
  assets.toList.flatMap fun x => x.2.toList.map fun y => ((x.1, y.1), y.2)

section Entries

variable {a : Assets UInt64} {p : BytesN 28} {n : Bytes} {q : UInt64}

lemma mem_entries_iff :
    ((p, n), q) ∈ entries a ↔
      ∃ inner : OrdMap Bytes UInt64, a[p]? = some inner ∧ inner[n]? = some q := by
  simp only [entries, List.mem_flatMap, List.mem_map, Prod.exists, Prod.mk.injEq]
  constructor
  · rintro ⟨p', inner, hp, n', q', hn, ⟨rfl, rfl⟩, rfl⟩
    exact ⟨inner, OrdMap.mem_toList_iff.mp hp, OrdMap.mem_toList_iff.mp hn⟩
  · rintro ⟨inner, hp, hn⟩
    exact ⟨p, inner, OrdMap.mem_toList_iff.mpr hp, n, q, OrdMap.mem_toList_iff.mpr hn,
      ⟨rfl, rfl⟩, rfl⟩

lemma nodup_entries (a : Assets UInt64) : ((entries a).map Prod.fst).Nodup := by
  rw [entries, List.map_flatMap]
  refine List.nodup_flatMap.mpr ⟨fun x _ => ?_, ?_⟩
  · -- within a policy, the names are distinct
    have hkeys := List.Nodup.map (Prod.mk_right_injective x.1) (OrdMap.nodup_keys x.2)
    rw [List.map_map] at hkeys ⊢
    exact hkeys
  · -- and the policies are distinct
    have hkeys := OrdMap.nodup_keys a
    rw [List.Nodup, List.pairwise_map] at hkeys
    refine hkeys.imp fun {x y} hne => ?_
    intro z hx hy
    simp only [List.mem_map] at hx hy
    obtain ⟨_, ⟨_, _, rfl⟩, rfl⟩ := hx
    obtain ⟨_, ⟨_, _, rfl⟩, h⟩ := hy
    exact hne (Prod.mk.inj h).1.symm

lemma quantity_of_mem_entries (h : ((p, n), q) ∈ entries a) : a.quantity p n = q := by
  obtain ⟨inner, hp, hn⟩ := mem_entries_iff.mp h
  rw [Assets.quantity_of_getElem? hp, hn, Option.getD_some]

lemma quantity_of_notMem_entries (h : (p, n) ∉ (entries a).map Prod.fst) :
    a.quantity p n = 0 := by
  cases hp : a[p]? with
  | none => exact Assets.quantity_of_none hp n
  | some inner =>
    rw [Assets.quantity_of_getElem? hp]
    cases hn : inner[n]? with
    | none => rfl
    | some q =>
      have hmem := mem_entries_iff.mpr ⟨inner, hp, hn⟩
      exact absurd (List.mem_map.mpr ⟨_, hmem, rfl⟩) h

/-- Of what there is some, there is an entry. -/
lemma mem_entries_of_ne_zero (h : a.quantity p n ≠ 0) : ((p, n), a.quantity p n) ∈ entries a := by
  by_cases hmem : (p, n) ∈ (entries a).map Prod.fst
  · obtain ⟨⟨_, q⟩, hentry, rfl⟩ := List.mem_map.mp hmem
    rwa [quantity_of_mem_entries hentry]
  · exact absurd (quantity_of_notMem_entries hmem) h

end Entries

end Value

end Konduit.Cardano
