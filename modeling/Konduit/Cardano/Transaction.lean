import Mathlib.Data.List.Sort
import Konduit.Cardano.Slots
import Konduit.Data.Datum

/-!
# Building a transaction

What a builder lays down of a transaction, and what the ledger shows of it to the validator.
The ledger keeps inputs in the order of their references, and a redeemer names its input by
the position in this order; so the builder sorts the inputs as well.
-/

open Lib

namespace Konduit.Kernel.OutputReference

/-- References are ordered by their transactions, then by their indexes. -/
instance : Ord OutputReference :=
  ⟨compareLex (compareOn transactionId) (compareOn outputIndex)⟩

instance : Std.TransOrd OutputReference :=
  inferInstanceAs (Std.TransCmp (compareLex (compareOn transactionId) (compareOn outputIndex)))

instance : Std.LawfulEqOrd OutputReference where
  eq_of_compare := by
    rintro ⟨id, index⟩ ⟨id', index'⟩ h
    obtain ⟨hid, hindex⟩ := Ordering.then_eq_eq.mp h
    obtain rfl : id = id' := Std.compare_eq_iff_eq.mp hid
    obtain rfl : index = index' := Std.compare_eq_iff_eq.mp hindex
    rfl

/-- What is sorted by reference stands in the order of the references. -/
lemma pairwise_mergeSort {α : Type*} (f : α → OutputReference) (l : List α) :
    (l.mergeSort fun a b => (compare (f a) (f b)).isLE).Pairwise fun a b =>
      (compare (f a) (f b)).isLE := by
  refine List.pairwise_mergeSort (fun _ _ _ => Std.TransCmp.isLE_trans) (fun a b => ?_) l
  rw [@Std.OrientedCmp.eq_swap _ compare _ (f b)]
  cases compare (f a) (f b) <;> rfl

/-- One reference comes before another one. -/
def Before (a b : OutputReference) : Prop := compare a b = .lt

instance : Std.Irrefl Before where
  irrefl a h := by
    rw [Before, @Std.ReflCmp.compare_self _ compare] at h
    cases h

instance : Std.Antisymm Before where
  antisymm a b h h' := by
    rw [Before, @Std.OrientedCmp.eq_swap _ compare, show compare a b = .lt from h] at h'
    cases h'

/-- Different references in order are strictly in order. -/
lemma pairwise_before {l : List OutputReference} (h : l.Pairwise fun a b => (compare a b).isLE)
    (hnodup : l.Nodup) : l.Pairwise Before := by
  refine (h.and hnodup).imp ?_
  rintro a b ⟨hle, hne⟩
  rw [Before]
  cases hcompare : compare a b with
  | lt => rfl
  | eq => exact absurd (Std.LawfulEqCmp.eq_of_compare hcompare) hne
  | gt => rw [hcompare] at hle; cases hle

end Konduit.Kernel.OutputReference

namespace Konduit.Cardano

open Data
open Kernel (OutputReference)

/-! ### What the builder lays down -/

/-- What is built of a transaction. -/
structure TransactionBody where
  inputs : List OutputReference
  /-- Redeemers, each with the position of its input. -/
  redeemers : List (ℕ × Redeemer)
  outputs : List Kernel.Output
  requiredSigners : List (BytesN 28)
  validity : ValidityInterval

/-- Inputs are sorted, and redeemers point at their positions.  No input is given twice, so
the redeemers play no part in the order. -/
def withInputs (inputs : List (OutputReference × Option Redeemer)) :
    List OutputReference × List (ℕ × Redeemer) :=
  let sorted := inputs.mergeSort fun a b => (compare a.1 b.1).isLE
  (sorted.map Prod.fst, sorted.zipIdx.filterMap fun x => x.1.2.map fun redeemer =>
    (x.2, redeemer))

/-- What is left over, and where it goes. -/
structure Change where
  address : Kernel.Address
  lovelace : UInt64
  assets : Kernel.Value

/-- The output for the change. -/
def Change.output (self : Change) : Kernel.Output :=
  ⟨self.address, self.lovelace, self.assets, .noDatum, none⟩

/-- The body of a transaction; all change, if there is any, is the last output. -/
def TransactionBody.build (inputs : List (OutputReference × Option Redeemer))
    (outputs : List Kernel.Output) (specifiedSignatories : List (BytesN 28))
    (validity : ValidityInterval) (change : Option Change) : TransactionBody where
  inputs := (withInputs inputs).1
  redeemers := (withInputs inputs).2
  outputs := outputs ++ (change.map Change.output).toList
  requiredSigners := specifiedSignatories
  validity := validity

/-! ### What the ledger shows -/

/-- What the ledger shows the validator of a body, with the outputs that it spends. -/
structure TransactionBody.Shown (body : TransactionBody)
    (utxos : OutputReference → Option Kernel.Output) (config : SlotConfig)
    (tx : Kernel.Transaction) (redeemers : OutputReference → Kernel.Redeemer) : Prop where
  inputs : (tx.inputs.map Kernel.Input.outputReference).Perm body.inputs
  ordered : (tx.inputs.map Kernel.Input.outputReference).Pairwise OutputReference.Before
  resolved : ∀ input ∈ tx.inputs, utxos input.outputReference = some input.output
  outputs : tx.outputs = body.outputs
  validityRange : tx.validityRange = body.validity.toKernel config
  extraSignatories : tx.extraSignatories = body.requiredSigners.map Subtype.val
  redeemers : ∀ i redeemer input, (i, redeemer) ∈ body.redeemers → tx.inputs[i]? = some input →
    redeemers input.outputReference = redeemer.toKernel

section WithInputs

variable {inputs : List (OutputReference × Option Redeemer)} {oref : OutputReference}
  {redeemer : Redeemer}

lemma withInputs_perm (inputs : List (OutputReference × Option Redeemer)) :
    (withInputs inputs).1.Perm (inputs.map Prod.fst) :=
  (List.mergeSort_perm _ _).map _

lemma withInputs_ordered (inputs : List (OutputReference × Option Redeemer)) :
    (withInputs inputs).1.Pairwise fun a b => (compare a b).isLE :=
  List.pairwise_map.mpr (OutputReference.pairwise_mergeSort Prod.fst inputs)

/-- Inputs that are in order stay as they are. -/
lemma withInputs_of_ordered (h : inputs.Pairwise fun a b => (compare a.1 b.1).isLE) :
    withInputs inputs = (inputs.map Prod.fst, inputs.zipIdx.filterMap fun x =>
      x.1.2.map fun redeemer => (x.2, redeemer)) := by
  rw [withInputs, List.mergeSort_of_pairwise h]

/-- The redeemer of an input points at it. -/
lemma mem_withInputs (h : (oref, some redeemer) ∈ inputs) :
    ∃ i, (withInputs inputs).1[i]? = some oref ∧ (i, redeemer) ∈ (withInputs inputs).2 := by
  obtain ⟨i, hi⟩ := List.mem_iff_getElem?.mp
    ((List.mergeSort_perm inputs fun a b => (compare a.1 b.1).isLE).mem_iff.mpr h)
  refine ⟨i, ?_, ?_⟩
  · rw [withInputs, List.getElem?_map, hi, Option.map_some]
  · exact List.mem_filterMap.mpr ⟨((oref, some redeemer), i), List.mem_zipIdx_iff_getElem?.mpr hi,
      rfl⟩

variable {outputs : List Kernel.Output} {signatories : List (BytesN 28)}
  {validity : ValidityInterval} {change : Option Change}
  {utxos : OutputReference → Option Kernel.Output} {config : SlotConfig}
  {tx : Kernel.Transaction} {redeemers : OutputReference → Kernel.Redeemer}

/-- The ledger's order is the order in which the builder has put the inputs. -/
lemma TransactionBody.Shown.inputs_eq
    (h : (build inputs outputs signatories validity change).Shown utxos config tx redeemers) :
    tx.inputs.map Kernel.Input.outputReference = (withInputs inputs).1 := by
  refine List.Perm.eq_of_pairwise (fun a b _ _ hab hba => ?_)
    (h.ordered.imp fun hbefore => ?_) (withInputs_ordered inputs) h.inputs
  · exact Std.LawfulEqCmp.eq_of_compare (Std.OrientedCmp.isLE_antisymm hab hba)
  · rw [show compare _ _ = .lt from hbefore]
    rfl

/-- An input that is given with a redeemer is shown with it. -/
lemma TransactionBody.Shown.redeemer_eq
    (h : (build inputs outputs signatories validity change).Shown utxos config tx redeemers)
    (hmem : (oref, some redeemer) ∈ inputs) : redeemers oref = redeemer.toKernel := by
  obtain ⟨i, hi, hredeemer⟩ := mem_withInputs hmem
  rw [← h.inputs_eq, List.getElem?_map] at hi
  obtain ⟨input, hinput, rfl⟩ := Option.map_eq_some_iff.mp hi
  exact h.redeemers i redeemer input hredeemer hinput

lemma TransactionBody.Shown.mem_inputs
    (h : (build inputs outputs signatories validity change).Shown utxos config tx redeemers) :
    oref ∈ tx.inputs.map Kernel.Input.outputReference ↔ ∃ redeemer, (oref, redeemer) ∈ inputs := by
  rw [h.inputs_eq, (withInputs_perm inputs).mem_iff]
  simp

/-- A redeemer points at an input that is given with it. -/
lemma withInputs_redeemer {i : ℕ} (h : (i, redeemer) ∈ (withInputs inputs).2) :
    ∃ oref, (oref, some redeemer) ∈ inputs ∧ (withInputs inputs).1[i]? = some oref := by
  obtain ⟨⟨⟨oref, r⟩, j⟩, hmem, heq⟩ := List.mem_filterMap.mp h
  obtain ⟨r, rfl, heq⟩ := Option.map_eq_some_iff.mp heq
  obtain ⟨rfl, rfl⟩ := Prod.mk.inj heq
  have hi := List.mem_zipIdx_iff_getElem?.mp hmem
  refine ⟨oref, ?_, ?_⟩
  · exact (List.mergeSort_perm _ _).mem_iff.mp (List.mem_of_getElem? hi)
  · rw [withInputs, List.getElem?_map, hi, Option.map_some]

/-- Distinct inputs that the ledger knows are shown in some way. -/
lemma TransactionBody.exists_shown (hnodup : (inputs.map Prod.fst).Nodup)
    (hknown : ∀ x ∈ inputs, ∃ output, utxos x.1 = some output) :
    ∃ tx redeemers,
      (build inputs outputs signatories validity change).Shown utxos config tx redeemers := by
  classical
  have hperm := withInputs_perm inputs
  have hknown : ∀ oref ∈ (withInputs inputs).1, ∃ output, utxos oref = some output := by
    intro oref horef
    obtain ⟨x, hx, rfl⟩ := List.mem_map.mp (hperm.mem_iff.mp horef)
    exact hknown x hx
  let shown := (withInputs inputs).1.filterMap fun oref =>
    (utxos oref).map (Kernel.Input.mk oref)
  have horefs : shown.map Kernel.Input.outputReference = (withInputs inputs).1 := by
    rw [List.map_filterMap]
    refine (List.filterMap_congr fun oref horef => ?_).trans List.filterMap_some
    obtain ⟨output, houtput⟩ := hknown oref horef
    rw [houtput]
    rfl
  have hdistinct : (shown.map Kernel.Input.outputReference).Nodup := by
    rw [horefs]
    exact hperm.nodup_iff.mpr hnodup
  -- the redeemer that an input is given with
  let redeemerOf (oref : OutputReference) : Kernel.Redeemer :=
    if h : ∃ redeemer, (oref, some redeemer) ∈ inputs then h.choose.toKernel else .defer
  refine ⟨⟨shown, _, _, _, [], hdistinct⟩, redeemerOf, ⟨?_, ?_, ?_, rfl, rfl, rfl, ?_⟩⟩
  · exact horefs ▸ List.Perm.refl _
  · change (shown.map Kernel.Input.outputReference).Pairwise _
    rw [horefs]
    exact OutputReference.pairwise_before (withInputs_ordered inputs) (horefs ▸ hdistinct)
  · intro input hinput
    obtain ⟨oref, -, heq⟩ := List.mem_filterMap.mp hinput
    obtain ⟨output, houtput, rfl⟩ := Option.map_eq_some_iff.mp heq
    exact houtput
  · intro i redeemer input hredeemer hinput
    obtain ⟨oref, hmem, hi⟩ := withInputs_redeemer hredeemer
    have horef : input.outputReference = oref := by
      rw [← horefs, List.getElem?_map, hinput, Option.map_some] at hi
      exact Option.some.inj hi
    have hex : ∃ redeemer, (input.outputReference, some redeemer) ∈ inputs :=
      ⟨redeemer, horef ▸ hmem⟩
    have heq := List.inj_on_of_nodup_map hnodup hex.choose_spec hmem horef
    change redeemerOf input.outputReference = _
    rw [show redeemerOf input.outputReference = hex.choose.toKernel from dif_pos hex]
    exact congrArg Redeemer.toKernel (Option.some.inj (Prod.mk.inj heq).2)

end WithInputs

end Konduit.Cardano
