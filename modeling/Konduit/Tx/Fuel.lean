import Konduit.Lib.Greedy
import Konduit.Lib.OrdMap
import Konduit.Cardano.Transaction

/-!
# Fuel of the first builder

Outputs of a wallet are taken by their lovelace, the largest first, until they have the amount.
There is a selection just where the wallet has the amount, and none has fewer inputs
(`select_fewest`).
-/

open Lib

namespace Konduit.Tx

open Kernel (OutputReference)

/-- Outputs by their places. -/
abbrev Utxos := OrdMap OutputReference Kernel.Output

namespace Fuel

/-- Why nothing is selected. -/
inductive SelectError where
  | insufficientFunds
deriving DecidableEq

/-- Take one output after another until there is enough: what is selected, with its total. -/
def pick (amount : UInt64) :
    List OutputReference → UInt64 → List (OutputReference × Kernel.Output) →
      List OutputReference × UInt64
  | selected, total, [] => (selected, total)
  | selected, total, (input, output) :: rest =>
    let selected := selected ++ [input]
    let total := Word.satAdd total output.lovelace
    if amount ≤ total then (selected, total) else pick amount selected total rest

/-- The outputs of a wallet, those with the most lovelace first. -/
def sortedUtxos (utxos : Utxos) : List (OutputReference × Kernel.Output) :=
  utxos.toList.mergeSort fun a b => b.2.lovelace ≤ a.2.lovelace

/-- Select outputs that hold an amount, those with the most first. -/
def select (utxos : Utxos) (amount : UInt64) : Except SelectError (List OutputReference) :=
  if amount = 0 then .ok []
  else
    let picked := pick amount [] 0 (sortedUtxos utxos)
    if picked.2 < amount then .error .insufficientFunds else .ok picked.1

/-- An output of a key, without a script. -/
def plain (output : Kernel.Output) : Bool :=
  output.referenceScript.isNone &&
    match output.address.paymentCredential with
    | .verificationKey _ => true
    | .script _ => false

/-- Select among the outputs that are not at a script. -/
def selectNoScript (utxos : Utxos) (amount : UInt64) : Except SelectError (List OutputReference) :=
  select (utxos.filter fun _ output => plain output) amount

/-! ### What is taken -/

/-- The lovelace of an output of the wallet. -/
def held (utxos : Utxos) (input : OutputReference) : ℕ :=
  (utxos[input]?.map fun output => output.lovelace.toNat).getD 0

/-- The lovelace that inputs hold. -/
def heldBy (utxos : Utxos) (inputs : List OutputReference) : ℕ := (inputs.map (held utxos)).sum

/-- All lovelace of the wallet. -/
def heldInAll (utxos : Utxos) : ℕ := (utxos.toList.map fun x => x.2.lovelace.toNat).sum

/-- The lovelace of an entry of the wallet. -/
def lovelaceOf (x : OutputReference × Kernel.Output) : ℕ := x.2.lovelace.toNat

/-- The loop takes the front of what it is given. -/
lemma pick_eq {amount total : UInt64} (htotal : total < amount) (selected : List OutputReference)
    (l : List (OutputReference × Kernel.Output)) :
    (pick amount selected total l).1 = selected ++
        (Greedy.front lovelaceOf (amount.toNat - total.toNat) l).map Prod.fst ∧
      (pick amount selected total l).2.toNat = min (total.toNat +
        Greedy.weightOf lovelaceOf (Greedy.front lovelaceOf (amount.toNat - total.toNat) l))
        (2 ^ 64 - 1) := by
  have hword := amount.toNat_lt
  induction l generalizing selected total with
  | nil =>
    have := total.toNat_lt
    simp only [pick, Greedy.front, List.map_nil, List.append_nil, Greedy.weightOf_nil, true_and]
    omega
  | cons x l ih =>
    obtain ⟨input, output⟩ := x
    rw [UInt64.lt_iff_toNat_lt] at htotal
    have hsum := Word.toNat_satAdd total output.lovelace
    have hlovelace : lovelaceOf (input, output) = output.lovelace.toNat := rfl
    rw [pick, Greedy.front, hlovelace]
    by_cases henough : amount ≤ Word.satAdd total output.lovelace
    · have hle := UInt64.le_iff_toNat_le.mp henough
      rw [if_pos henough, if_pos (by omega), Greedy.weightOf_cons, hlovelace, hsum]
      exact ⟨rfl, rfl⟩
    · have hlt := not_le.mp henough
      have hlt' := UInt64.lt_iff_toNat_lt.mp hlt
      obtain ⟨hselected, htotal'⟩ := ih hlt (selected ++ [input])
      have hrest : amount.toNat - (Word.satAdd total output.lovelace).toNat =
          amount.toNat - total.toNat - output.lovelace.toNat := by
        omega
      rw [hrest] at hselected htotal'
      rw [if_neg henough, if_neg (by omega), Greedy.weightOf_cons, hlovelace, List.map_cons]
      refine ⟨hselected.trans (List.append_assoc _ _ _), htotal'.trans ?_⟩
      omega

/-! ### The fewest inputs -/

section Fewest

variable (utxos : Utxos)

lemma sortedUtxos_perm : (sortedUtxos utxos).Perm utxos.toList := List.mergeSort_perm _ _

lemma sortedUtxos_pairwise :
    (sortedUtxos utxos).Pairwise fun a b => lovelaceOf b ≤ lovelaceOf a := by
  have hsorted := @List.pairwise_mergeSort _
    (fun a b : OutputReference × Kernel.Output => decide (b.2.lovelace ≤ a.2.lovelace)) ?_ ?_
    utxos.toList
  · exact hsorted.imp fun h => UInt64.le_iff_toNat_le.mp (of_decide_eq_true h)
  · intro a b c hab hbc
    exact decide_eq_true ((of_decide_eq_true hbc).trans (of_decide_eq_true hab))
  · intro a b
    rw [Bool.or_eq_true, decide_eq_true_eq, decide_eq_true_eq]
    exact le_total _ _

lemma weightOf_sortedUtxos :
    Greedy.weightOf lovelaceOf (sortedUtxos utxos) = heldInAll utxos :=
  Greedy.weightOf_perm (sortedUtxos_perm utxos)

variable {utxos}

lemma held_of_mem {x : OutputReference × Kernel.Output} (h : x ∈ utxos.toList) :
    held utxos x.1 = lovelaceOf x := by
  rw [held, OrdMap.mem_toList_iff.mp h]
  rfl

/-- What the inputs of entries hold is what the entries weigh. -/
lemma heldBy_map_fst {l : List (OutputReference × Kernel.Output)} (h : l ⊆ utxos.toList) :
    heldBy utxos (l.map Prod.fst) = Greedy.weightOf lovelaceOf l := by
  rw [heldBy, List.map_map, Greedy.weightOf]
  exact congrArg List.sum (List.map_congr_left fun x hx => held_of_mem (h hx))

/-- Distinct inputs of the wallet are those of some of its entries. -/
lemma exists_entries {inputs : List OutputReference} (hnodup : inputs.Nodup)
    (hmem : ∀ input ∈ inputs, utxos.contains input) :
    ∃ l : List (OutputReference × Kernel.Output),
      l.map Prod.fst = inputs ∧ l.Subperm utxos.toList := by
  have hentry : ∀ input ∈ inputs, ∃ x ∈ utxos.toList, x.1 = input := by
    intro input hinput
    obtain ⟨x, hx, rfl⟩ := List.mem_map.mp (OrdMap.mem_keys_iff.mpr (hmem input hinput))
    exact ⟨x, hx, rfl⟩
  obtain ⟨l, hl⟩ : ∃ l : List (OutputReference × Kernel.Output),
      l.map Prod.fst = inputs ∧ l ⊆ utxos.toList := by
    clear hnodup hmem
    induction inputs with
    | nil => exact ⟨[], rfl, List.nil_subset _⟩
    | cons input inputs ih =>
      obtain ⟨l, rfl, hl⟩ := ih fun i hi => hentry i (List.mem_cons_of_mem _ hi)
      obtain ⟨x, hx, rfl⟩ := hentry input List.mem_cons_self
      exact ⟨x :: l, rfl, List.cons_subset.mpr ⟨hx, hl⟩⟩
  refine ⟨l, hl.1, ?_⟩
  rw [← hl.1] at hnodup
  exact hnodup.of_map.subperm hl.2

end Fewest

/-- Distinct inputs of the wallet that hold the amount. -/
structure Covers (utxos : Utxos) (amount : UInt64) (inputs : List OutputReference) : Prop where
  nodup : inputs.Nodup
  contains : ∀ input ∈ inputs, utxos.contains input
  enough : amount.toNat ≤ heldBy utxos inputs

/-- The fewest inputs that hold the amount; none of them can be left out. -/
structure Fewest (utxos : Utxos) (amount : UInt64) (inputs : List OutputReference) : Prop where
  covers : Covers utxos amount inputs
  least : ∀ others, Covers utxos amount others → inputs.length ≤ others.length
  needed : ∀ input ∈ inputs, heldBy utxos (inputs.erase input) < amount.toNat

/-- Where there is less to take, the amount is not held. -/
lemma Covers.of_fewest {utxos : Utxos} {amount : UInt64} {inputs : List OutputReference}
    (hcovers : Covers utxos amount inputs)
    (hleast : ∀ others, Covers utxos amount others → inputs.length ≤ others.length) :
    Fewest utxos amount inputs := by
  refine ⟨hcovers, hleast, fun input hinput => ?_⟩
  by_contra hlt
  have hothers : Covers utxos amount (inputs.erase input) :=
    ⟨hcovers.nodup.erase _, fun i hi => hcovers.contains i (List.mem_of_mem_erase hi),
      not_lt.mp hlt⟩
  have hlength := hleast _ hothers
  have hpos := List.length_pos_of_mem hinput
  rw [List.length_erase_of_mem hinput] at hlength
  omega

lemma select_eq_ok {utxos : Utxos} {amount : UInt64} {inputs : List OutputReference}
    (hpos : amount ≠ 0) : select utxos amount = .ok inputs ↔
      inputs = (Greedy.front lovelaceOf amount.toNat (sortedUtxos utxos)).map Prod.fst ∧
        amount.toNat ≤ heldInAll utxos := by
  have hamount : (0 : UInt64) < amount := by
    rw [UInt64.lt_iff_toNat_lt]
    exact Nat.pos_of_ne_zero fun h => hpos (UInt64.toNat_inj.mp h)
  obtain ⟨hfst, hsnd⟩ := pick_eq hamount [] (sortedUtxos utxos)
  rw [UInt64.toNat_zero, Nat.sub_zero] at hfst hsnd
  have hword := amount.toNat_lt
  have henough : ¬ (pick amount [] 0 (sortedUtxos utxos)).2 < amount ↔
      amount.toNat ≤ heldInAll utxos := by
    rw [← weightOf_sortedUtxos, ← Greedy.le_weightOf_front_iff, UInt64.lt_iff_toNat_lt, hsnd]
    omega
  rw [select, if_neg hpos, ← henough]
  by_cases hlt : (pick amount [] 0 (sortedUtxos utxos)).2 < amount
  · simp [hlt]
  · simp [hlt, hfst, eq_comm]

lemma select_isOk_iff {utxos : Utxos} {amount : UInt64} :
    (∃ inputs, select utxos amount = .ok inputs) ↔ amount.toNat ≤ heldInAll utxos := by
  by_cases hzero : amount = 0
  · subst hzero
    exact iff_of_true ⟨[], rfl⟩ (Nat.zero_le _)
  · simp only [select_eq_ok hzero, exists_eq_left]

lemma fewest_of_select {utxos : Utxos} {amount : UInt64} {inputs : List OutputReference}
    (h : select utxos amount = .ok inputs) : Fewest utxos amount inputs := by
  by_cases hzero : amount = 0
  · subst hzero
    obtain rfl : [] = inputs := Except.ok.inj h
    exact ⟨⟨List.nodup_nil, List.forall_mem_nil _, Nat.zero_le _⟩, fun _ _ => Nat.zero_le _,
      List.forall_mem_nil _⟩
  · have hpos : 0 < amount.toNat := Nat.pos_of_ne_zero fun h => hzero (UInt64.toNat_inj.mp h)
    obtain ⟨rfl, henough⟩ := (select_eq_ok hzero).mp h
    have hfront := (@Greedy.front_prefix _ lovelaceOf amount.toNat (sortedUtxos utxos)).sublist
    have hsub := List.Subset.trans hfront.subset (sortedUtxos_perm utxos).subset
    refine Covers.of_fewest ⟨?_, fun input hinput => ?_, ?_⟩ fun others hothers => ?_
    · have hkeys := (sortedUtxos_perm utxos).map Prod.fst
      exact (hfront.map Prod.fst).nodup (hkeys.nodup_iff.mpr (OrdMap.nodup_keys utxos))
    · exact OrdMap.mem_keys_iff.mp (List.map_subset Prod.fst hsub hinput)
    · rw [heldBy_map_fst hsub, Greedy.le_weightOf_front_iff, weightOf_sortedUtxos]
      exact henough
    · -- fewer entries than were taken weigh less
      obtain ⟨l, rfl, hl⟩ := exists_entries hothers.nodup hothers.contains
      by_contra hlt
      rw [List.length_map, List.length_map, not_le] at hlt
      have hweight := Greedy.weightOf_lt_of_length_lt (sortedUtxos_pairwise utxos) hpos
        (hl.trans (sortedUtxos_perm utxos).symm.subperm) hlt
      have hothers := hothers.enough
      rw [heldBy_map_fst hl.subset] at hothers
      omega

/-- **Fuel.**  There is a selection just where the wallet has the amount.  Its inputs are distinct,
they are of the wallet and hold the amount, and no other inputs that do are fewer. -/
theorem select_fewest (utxos : Utxos) (amount : UInt64) :
    ((∃ inputs, select utxos amount = .ok inputs) ↔ amount.toNat ≤ heldInAll utxos) ∧
      ∀ inputs, select utxos amount = .ok inputs → Fewest utxos amount inputs :=
  ⟨select_isOk_iff, fun _ h => fewest_of_select h⟩

end Fuel

end Konduit.Tx
