import Konduit.Cardano.Builder
import Konduit.Lib.Result

/-!
# Balance

What is spent and minted is what is paid out, burned and left as the fee, of lovelace and of every
asset: the change is what is missing (`toNat_of_balance`).  This holds of what `withChange` gives,
and of what `build` gives, wherever what is spent and minted fits into 64 bits (`change_balances`).
-/

open Lib

namespace Konduit.Cardano.Builder

open Kernel (OutputReference)
open Value (quantityOf totalOf)

/-! ### Totals -/

section Totals

variable (resolvedInputs : ResolvedInputs)

/-- The value of an input; an unknown one counts as nothing. -/
def valueAt (input : OutputReference) : Value UInt64 :=
  resolvedInputs[input]?.elim (.new 0) Output.value

/-- What the inputs hold of a unit. -/
def spentTotal (tx : Tx) (unit : Value.Unit) : ℕ :=
  totalOf (valueAt resolvedInputs) tx.inputs unit

/-- What the outputs hold of a unit. -/
def paidTotal (tx : Tx) (unit : Value.Unit) : ℕ :=
  totalOf (fun output : TransactionOutput => .ofPallas output.value) tx.outputs unit

/-- How many of a unit a mint adds. -/
def mintedTotal (tx : Tx) : Value.Unit → ℕ
  | .lovelace => 0
  | .asset p n => (tx.mintValue.assets.quantity p n).toInt.toNat

/-- How many of a unit a mint takes away. -/
def burnedTotal (tx : Tx) : Value.Unit → ℕ
  | .lovelace => 0
  | .asset p n => (-(tx.mintValue.assets.quantity p n).toInt).toNat

/-- The fee, which is paid in lovelace. -/
def feeTotal (tx : Tx) : Value.Unit → ℕ
  | .lovelace => tx.fee.toNat
  | .asset _ _ => 0

/-- What comes in of a unit is what goes out. -/
def Balanced (tx : Tx) (unit : Value.Unit) : Prop :=
  spentTotal resolvedInputs tx unit + mintedTotal tx unit =
    paidTotal tx unit + burnedTotal tx unit + feeTotal tx unit

end Totals

/-! ### Mint and burn -/

section Mint

variable {quantity : Int64 → Option UInt64} {assets : Assets Int64} {p : BytesN 28} {n : Bytes}

lemma getElem?_partitionMint_eq_some_iff {inner : OrdMap Bytes UInt64} :
    (partitionMint quantity assets)[p]? = some inner ↔
      inner ≠ ∅ ∧ ∃ inner', assets[p]? = some inner' ∧
        inner'.filterMap (fun _ q => quantity q) = inner :=
  Assets.getElem?_filterMap_isEmpty_eq_some_iff _

/-- What is kept of a policy's quantities. -/
lemma getD_filterMap (hzero : (quantity 0).getD 0 = 0) (inner : OrdMap Bytes Int64) (n : Bytes) :
    (inner.filterMap fun _ q => quantity q)[n]?.getD 0 =
      (quantity (inner[n]?.getD 0)).getD 0 := by
  rw [Std.ExtTreeMap.getElem?_filterMap']
  cases inner[n]? with
  | none => exact hzero.symm
  | some q => rfl

lemma quantity_partitionMint (hzero : (quantity 0).getD 0 = 0) (p : BytesN 28) (n : Bytes) :
    (partitionMint quantity assets).quantity p n =
      (quantity (assets.quantity p n)).getD 0 := by
  rw [partitionMint,
    Assets.quantity_filterMap_isEmpty fun inner => inner.filterMap fun _ q => quantity q]
  cases hp : assets[p]? with
  | none => rw [Assets.quantity_of_none hp, hzero, Option.bind_none, Option.getD_none]
  | some inner =>
    rw [Assets.quantity_of_getElem? hp, ← getD_filterMap hzero]
    rfl

lemma normal_partitionMint (h : assets.Normal) (hne : ∀ q, q ≠ 0 → quantity q ≠ some 0) :
    (partitionMint quantity assets).Normal where
  ne_zero p inner hp n := by
    obtain ⟨-, inner', hp', rfl⟩ := getElem?_partitionMint_eq_some_iff.mp hp
    rw [Std.ExtTreeMap.getElem?_filterMap']
    cases hq : inner'[n]? with
    | none => exact nofun
    | some q => exact hne q fun heq => h.ne_zero p inner' hp' n (heq ▸ hq)
  ne_empty p inner hp := (getElem?_partitionMint_eq_some_iff.mp hp).1

lemma pos_iff {q : Int64} : 0 < q ↔ 0 < q.toInt := Int64.lt_iff_toInt_lt

lemma toNat_toUInt64_of_pos {q : Int64} (h : 0 < q) : q.toUInt64.toNat = q.toInt.toNat :=
  Int64.toNat_toUInt64_of_le (Int64.le_of_lt h)

lemma toNat_toUInt64_neg {q : Int64} (h : ¬0 < q) : (-q).toUInt64.toNat = (-q.toInt).toNat := by
  have hle : q.toInt ≤ 0 := not_lt.mp (pos_iff.not.mp h)
  have hnat : q.toUInt64.toNat = q.toBitVec.toNat := rfl
  have hint : q.toInt = q.toBitVec.toInt := rfl
  rw [BitVec.toInt_eq_toNat_cond] at hint
  have hlt := q.toBitVec.isLt
  have hsize : UInt64.size = 2 ^ 64 := rfl
  rw [Int64.toUInt64_neg, UInt64.toNat_neg, hnat, hsize]
  split at hint <;> omega

lemma quantity_minted (p : BytesN 28) (n : Bytes) :
    ((minted assets).quantity p n).toNat = (assets.quantity p n).toInt.toNat := by
  rw [minted, quantity_partitionMint rfl]
  by_cases h : 0 < assets.quantity p n
  · rw [if_pos h, Option.getD_some, toNat_toUInt64_of_pos h]
  · rw [if_neg h, Option.getD_none, UInt64.toNat_zero]
    rw [pos_iff] at h
    omega

lemma quantity_burned (p : BytesN 28) (n : Bytes) :
    ((burned assets).quantity p n).toNat = (-(assets.quantity p n).toInt).toNat := by
  rw [burned, quantity_partitionMint rfl]
  by_cases h : 0 < assets.quantity p n
  · rw [if_pos h, Option.getD_none, UInt64.toNat_zero]
    rw [pos_iff] at h
    omega
  · rw [if_neg h, Option.getD_some, toNat_toUInt64_neg h]

lemma normal_minted (h : assets.Normal) : (minted assets).Normal := by
  refine normal_partitionMint h fun q hq => ?_
  by_cases hpos : 0 < q
  · rw [if_pos hpos, ne_eq, Option.some.injEq]
    intro hzero
    have hnat := toNat_toUInt64_of_pos hpos
    rw [hzero, UInt64.toNat_zero] at hnat
    rw [pos_iff] at hpos
    omega
  · rw [if_neg hpos]
    exact nofun

lemma normal_burned (h : assets.Normal) : (burned assets).Normal := by
  refine normal_partitionMint h fun q hq => ?_
  by_cases hpos : 0 < q
  · rw [if_pos hpos]
    exact nofun
  · rw [if_neg hpos, ne_eq, Option.some.injEq]
    intro hzero
    have hnat := toNat_toUInt64_neg hpos
    rw [hzero, UInt64.toNat_zero] at hnat
    rw [pos_iff] at hpos
    refine hq (Int64.toInt_inj.mp ?_)
    rw [Int64.toInt_zero]
    omega

lemma normal_mintValue (tx : Tx) : tx.mintValue.assets.Normal := by
  rw [Tx.mintValue]
  cases tx.mint with
  | none => exact Assets.Normal.empty
  | some mint => exact mint.normal

lemma toNat_quantityOf_minted (tx : Tx) (unit : Value.Unit) :
    (quantityOf (ofAssets (minted tx.mintValue.assets)) unit).toNat = mintedTotal tx unit := by
  rw [ofAssets, Value.withAssets_new_of_normal 0 (normal_minted (normal_mintValue tx))]
  cases unit with
  | lovelace => rfl
  | asset p n => exact quantity_minted p n

lemma toNat_quantityOf_burned (tx : Tx) (unit : Value.Unit) :
    (quantityOf (ofAssets (burned tx.mintValue.assets)) unit).toNat = burnedTotal tx unit := by
  rw [ofAssets, Value.withAssets_new_of_normal 0 (normal_burned (normal_mintValue tx))]
  cases unit with
  | lovelace => rfl
  | asset p n => exact quantity_burned p n

end Mint

/-! ### The balance -/

section Balance

variable {env : Environment} {resolvedInputs : ResolvedInputs} {tx : Tx}
  {total change : Value UInt64}

lemma quantityOf_addInput {input : OutputReference} {sum : Value UInt64}
    (h : addInput resolvedInputs total input = .ok sum) (unit : Value.Unit) :
    quantityOf sum unit =
      quantityOf total unit + quantityOf (valueAt resolvedInputs input) unit := by
  rw [addInput] at h
  rw [valueAt]
  cases hget : resolvedInputs[input]? with
  | none =>
    rw [hget] at h
    cases h
  | some output =>
    rw [hget] at h
    cases h
    rw [Option.elim_some, Value.quantityOf_add]

/-- The sum of the inputs, which goes around at `2 ^ 64`. -/
lemma toNat_of_foldlM_addInput {inputs : List OutputReference} {sum : Value UInt64}
    (h : inputs.foldlM (addInput resolvedInputs) total = .ok sum) (unit : Value.Unit) :
    (quantityOf sum unit).toNat =
      ((quantityOf total unit).toNat + totalOf (valueAt resolvedInputs) inputs unit) % 2 ^ 64 := by
  induction inputs generalizing total with
  | nil =>
    cases h
    rw [Value.totalOf_nil, Nat.add_zero, Nat.mod_eq_of_lt (UInt64.toNat_lt _)]
  | cons input inputs ih =>
    rw [List.foldlM_cons, Result.bind_eq_ok] at h
    obtain ⟨next, hnext, h⟩ := h
    rw [ih h, quantityOf_addInput hnext, UInt64.toNat_add, Nat.mod_add_mod, Nat.add_assoc,
      Value.totalOf_cons]

lemma subtract_eq_ok {rest : Value UInt64} {amount : Value UInt64}
    (h : subtract total amount = .ok rest) : Value.checkedSub total amount = (.ok (), rest) := by
  rw [subtract] at h
  split at h
  · next heq =>
    cases h
    exact heq
  · cases h

lemma toNat_of_subtract {rest : Value UInt64} {amount : Value UInt64}
    (h : subtract total amount = .ok rest) (unit : Value.Unit) :
    (quantityOf total unit).toNat =
      (quantityOf amount unit).toNat + (quantityOf rest unit).toNat :=
  Value.quantityOf_of_checkedSub (subtract_eq_ok h) unit

/-- What the outputs take off is exactly their total. -/
lemma toNat_of_foldlM_subtract {outputs : List Output} {rest : Value UInt64}
    (h : outputs.foldlM (fun total output => subtract total output.value) total = .ok rest)
    (unit : Value.Unit) :
    (quantityOf total unit).toNat =
      totalOf Output.value outputs unit + (quantityOf rest unit).toNat := by
  induction outputs generalizing total with
  | nil =>
    cases h
    rw [Value.totalOf_nil, Nat.zero_add]
  | cons output outputs ih =>
    rw [List.foldlM_cons, Result.bind_eq_ok] at h
    obtain ⟨next, hnext, h⟩ := h
    rw [toNat_of_subtract hnext, ih h, Value.totalOf_cons, Nat.add_assoc]

lemma totalOf_getOutputs (unit : Value.Unit) :
    totalOf Output.value (tx.getOutputs env) unit = paidTotal tx unit := by
  rw [totalOf, Tx.getOutputs, List.map_map, paidTotal, totalOf]
  refine congrArg List.sum (List.map_congr_left fun output _ => ?_)
  rw [Function.comp_apply, Output.value_ofPallas]

lemma toNat_quantityOf_fee (unit : Value.Unit) :
    (quantityOf (.new tx.fee) unit).toNat = feeTotal tx unit := by
  cases unit with
  | lovelace => rfl
  | asset p n =>
    rw [Value.quantityOf_new_asset]
    rfl

/-- The change is what is spent and minted beyond what is paid out, burned and left as the fee. -/
theorem toNat_of_balance (h : balance env resolvedInputs tx = .ok change) (unit : Value.Unit) :
    (spentTotal resolvedInputs tx unit + mintedTotal tx unit) % 2 ^ 64 =
      paidTotal tx unit + burnedTotal tx unit + feeTotal tx unit +
        (quantityOf change unit).toNat := by
  simp only [balance, Result.bind_eq_ok] at h
  obtain ⟨spent, hspent, held, hheld, unpaid, hunpaid, hchange⟩ := h
  have hsum : (quantityOf spent unit).toNat = spentTotal resolvedInputs tx unit % 2 ^ 64 := by
    have hzero : (quantityOf (.new 0) unit).toNat = 0 := by cases unit <;> simp
    rw [toNat_of_foldlM_addInput hspent, hzero, Nat.zero_add, spentTotal]
  have hburn := toNat_of_subtract hheld unit
  rw [Value.quantityOf_add, UInt64.toNat_add, hsum, toNat_quantityOf_minted, Nat.mod_add_mod,
    toNat_quantityOf_burned] at hburn
  have hpay := toNat_of_foldlM_subtract hunpaid unit
  rw [totalOf_getOutputs] at hpay
  have hfee := toNat_of_subtract hchange unit
  rw [toNat_quantityOf_fee] at hfee
  omega

lemma normal_of_balance (h : balance env resolvedInputs tx = .ok change) :
    change.assets.Normal := by
  simp only [balance, Result.bind_eq_ok] at h
  obtain ⟨_, _, _, _, _, _, hchange⟩ := h
  exact Value.normal_of_checkedSub (subtract_eq_ok hchange)

end Balance

/-! ### Change -/

/-- The strategies of the builder: without change, or with the change in an output of its own. -/
inductive ChangeStrategy.Plain : ChangeStrategy → Prop where
  | default : Plain .default
  | asFirstOutput (address : Address) : Plain (.asFirstOutput address)
  | asLastOutput (address : Address) : Plain (.asLastOutput address)

/-- A transaction with its change balances; the outputs that were there stay as they are, and at
most one is added to them. -/
structure Changed (resolvedInputs : ResolvedInputs) (tx tx' : Tx) : Prop where
  inputs : tx'.inputs = tx.inputs
  mint : tx'.mint = tx.mint
  fee : tx'.fee = tx.fee
  outputs : tx'.outputs = tx.outputs ∨
    ∃ change, tx'.outputs = change :: tx.outputs ∨ tx'.outputs = tx.outputs ++ [change]
  balanced : ∀ unit, spentTotal resolvedInputs tx unit + mintedTotal tx unit < 2 ^ 64 →
    Balanced resolvedInputs tx' unit

section Change

variable {env : Environment} {resolvedInputs : ResolvedInputs} {tx tx' : Transaction}
  {change : Value UInt64}

lemma ChangeStrategy.Plain.outputs_eq {strategy : ChangeStrategy} (h : strategy.Plain)
    {outputs outputs' : List Output} (hput : strategy change outputs = .ok outputs') :
    ∃ address, outputs' = .new address change :: outputs ∨
      outputs' = outputs ++ [.new address change] := by
  cases h with
  | default => cases hput
  | asFirstOutput address =>
    cases hput
    exact ⟨address, Or.inl rfl⟩
  | asLastOutput address =>
    cases hput
    exact ⟨address, Or.inr rfl⟩

/-- The outputs are put back as they were. -/
lemma map_toPallas_getOutputs (tx : Tx) : (tx.getOutputs env).map Output.toPallas = tx.outputs := by
  rw [Tx.getOutputs, List.map_map]
  exact (List.map_congr_left fun output _ => Output.toPallas_ofPallas output).trans (List.map_id _)

/-- The output that is added holds the change. -/
lemma quantityOf_toPallas_new (address : Address) (unit : Value.Unit) :
    quantityOf (.ofPallas (Output.new address change).toPallas.value) unit =
      quantityOf change unit := by
  rw [Output.new, Output.toPallas, Output.value, Value.ofPallas_toPallas, Value.quantityOf_pruned]

lemma withChangeOutput_eq_ok (hplain : tx.changeStrategy.Plain)
    (h : withChangeOutput env tx change = .ok tx') :
    ∃ address outputs, tx'.inner = { tx.inner with outputs := outputs } ∧
      (outputs = (Output.new address change).toPallas :: tx.inner.outputs ∨
        outputs = tx.inner.outputs ++ [(Output.new address change).toPallas]) := by
  rw [withChangeOutput] at h
  split at h
  · cases h
  rw [Result.bind_eq_ok] at h
  obtain ⟨outputs, hput, h⟩ := h
  cases h
  obtain ⟨address, rfl | rfl⟩ := hplain.outputs_eq hput
  · refine ⟨address, _, rfl, Or.inl ?_⟩
    rw [List.map_cons, map_toPallas_getOutputs]
  · refine ⟨address, _, rfl, Or.inr ?_⟩
    rw [List.map_append, map_toPallas_getOutputs, List.map_singleton]

theorem changed_of_withChange (hplain : tx.changeStrategy.Plain)
    (h : withChange env resolvedInputs tx = .ok tx') :
    Changed resolvedInputs tx.inner tx'.inner := by
  rw [withChange, Result.bind_eq_ok] at h
  obtain ⟨change, hchange, h⟩ := h
  have hbalance := toNat_of_balance hchange
  by_cases hempty : change.isEmpty
  · rw [if_pos hempty] at h
    cases h
    refine ⟨rfl, rfl, rfl, Or.inl rfl, fun unit hfits => ?_⟩
    have hzero := (Value.isEmpty_iff (normal_of_balance hchange)).mp hempty unit
    have hunit := hbalance unit
    rwa [Nat.mod_eq_of_lt hfits, hzero, UInt64.toNat_zero, Nat.add_zero] at hunit
  · rw [if_neg hempty] at h
    obtain ⟨address, outputs, hinner, houtputs⟩ := withChangeOutput_eq_ok hplain h
    rw [hinner]
    have hpaid : ∀ unit, paidTotal { tx.inner with outputs := outputs } unit =
        paidTotal tx.inner unit + (quantityOf change unit).toNat := by
      intro unit
      rw [paidTotal, paidTotal]
      obtain rfl | rfl := houtputs
      · rw [Value.totalOf_cons, quantityOf_toPallas_new, Nat.add_comm]
      · rw [Value.totalOf_append, Value.totalOf_cons, Value.totalOf_nil, Nat.add_zero,
          quantityOf_toPallas_new]
    refine ⟨rfl, rfl, rfl, Or.inr ⟨_, houtputs⟩, fun unit hfits => ?_⟩
    have hunit := hbalance unit
    rw [Nat.mod_eq_of_lt hfits] at hunit
    rw [Balanced, hpaid]
    -- what is not an output is as it was
    change spentTotal resolvedInputs tx.inner unit + mintedTotal tx.inner unit =
      _ + burnedTotal tx.inner unit + feeTotal tx.inner unit
    omega

/-- What is spent and minted covers what is paid out, burned and left as the fee, or there is an
error. -/
lemma withChange_eq_error {unit : Value.Unit}
    (hfits : spentTotal resolvedInputs tx.inner unit + mintedTotal tx.inner unit < 2 ^ 64)
    (hlt : spentTotal resolvedInputs tx.inner unit + mintedTotal tx.inner unit <
      paidTotal tx.inner unit + burnedTotal tx.inner unit + feeTotal tx.inner unit) :
    ∃ e, withChange env resolvedInputs tx = .error e := by
  cases h : withChange env resolvedInputs tx with
  | error e => exact ⟨e, rfl⟩
  | ok tx' =>
    rw [withChange, Result.bind_eq_ok] at h
    obtain ⟨change, hchange, -⟩ := h
    have hunit := toNat_of_balance hchange unit
    rw [Nat.mod_eq_of_lt hfits] at hunit
    omega

end Change

/-! ### What is built -/

section Build

variable (env : Environment) (resolvedInputs : ResolvedInputs)

/-- What comes after the change leaves the inputs, the outputs, the mint and the fee alone. -/
lemma changed_of_round {callback : Transaction → Except Error Transaction} {fee : UInt64}
    {units : OrdMap RedeemerPointer ExecutionUnits} {next : Round}
    (hplain : ∀ tx user, callback tx = .ok user → user.changeStrategy.Plain)
    (h : round env resolvedInputs callback fee units = .ok next) :
    ∃ user, callback (Transaction.default.withFee fee) = .ok user ∧
      Changed resolvedInputs user.inner next.tx := by
  obtain ⟨user, changed, total, output, hash, huser, hchanged, htx, -⟩ := round_eq_ok h
  have hchange := changed_of_withChange (hplain _ _ huser) hchanged
  rw [htx]
  exact ⟨user, huser, hchange.inputs, hchange.mint, hchange.fee, hchange.outputs,
    hchange.balanced⟩

/-- A transaction with its change balances, also the one that is built, wherever what is spent and
minted fits into 64 bits; where this does not cover what is paid out, burned and left as the fee,
there is an error. -/
theorem change_balances :
    (∀ tx : Transaction, tx.changeStrategy.Plain →
      (∀ tx', withChange env resolvedInputs tx = .ok tx' →
        Changed resolvedInputs tx.inner tx'.inner) ∧
      ∀ unit,
        spentTotal resolvedInputs tx.inner unit + mintedTotal tx.inner unit < 2 ^ 64 →
        spentTotal resolvedInputs tx.inner unit + mintedTotal tx.inner unit <
          paidTotal tx.inner unit + burnedTotal tx.inner unit + feeTotal tx.inner unit →
        ∃ e, withChange env resolvedInputs tx = .error e) ∧
    ∀ callback : Transaction → Except Error Transaction,
      (∀ tx user, callback tx = .ok user → user.changeStrategy.Plain) →
        ∀ tx, build env resolvedInputs callback = .ok tx →
          ∃ fee user, callback (Transaction.default.withFee fee) = .ok user ∧
            Changed resolvedInputs user.inner tx := by
  refine ⟨fun tx hplain => ⟨fun tx' => changed_of_withChange hplain, fun unit => ?_⟩, ?_⟩
  · exact withChange_eq_error
  · intro callback hplain tx h
    obtain ⟨fee, units, hlast⟩ := exists_last_of_build h
    obtain ⟨next, hround, rfl, -⟩ := hlast.round_eq
    obtain ⟨user, huser, hchanged⟩ := changed_of_round env resolvedInputs hplain hround
    exact ⟨fee, user, huser, hchanged⟩

end Build

/-! ### Transactions that mint and burn -/

/-- An environment with small fees, in which the first minting script uses some units. -/
def sampleEnvironment : Environment where
  params :=
    { feePerByte := 1
      feeConstant := 100
      priceMem := id
      priceCpu := id
      minimumCollateral := id
      referencedScriptsFee := id }
  outputSize := fun _ => 0
  txSize := fun _ => 200
  scriptDataHash := fun _ _ => .fill 32 0
  evalPhaseTwo := fun _ => .ok (.ofList [(.fromMint 0, ⟨7, 9⟩)] compare)

/-- Some of one asset. -/
def sampleAssets {Q : Type} (policy : UInt8) (quantity : Q) : Assets Q :=
  .ofList [(.fill 28 policy, .ofList [([1], quantity)] compare)] compare

/-- A unit of a policy. -/
def sampleUnit (policy : UInt8) : Value.Unit := .asset (.fill 28 policy) [1]

/-- An output of one transaction. -/
def sampleInput (outputIndex : ℕ) : OutputReference := ⟨List.replicate 32 1, outputIndex⟩

/-- Five of an asset are minted and paid out; three of another one are spent and burned. -/
def sampleCallback (tx : Transaction) : Except Error Transaction :=
  .ok {
    inner := { tx.inner with
      inputs := [sampleInput 0]
      outputs := [(Output.new .default ⟨2000000, sampleAssets 7 5⟩).toPallas]
      mint := intoMultiasset
        (.ofList ((sampleAssets 7 5).toList ++ (sampleAssets 8 (-3)).toList) compare)
      collaterals := [sampleInput 1]
      redeemers := .ofList [(.fromMint 0, ⟨[], ⟨0, 0⟩⟩), (.fromMint 1, ⟨[], ⟨0, 0⟩⟩)] compare }
    changeStrategy := .asLastOutput .default }

/-- Two outputs, of which the first holds assets. -/
def sampleInputs : ResolvedInputs :=
  .ofList [(sampleInput 0, .new .default ⟨9000000, sampleAssets 8 4⟩),
    (sampleInput 1, .new .default (.new 5000000))] compare

/-- What is built of it balances. -/
theorem changed_of_sampleCallback :
    ∃ tx, build sampleEnvironment sampleInputs sampleCallback = .ok tx ∧
      ∃ fee user, sampleCallback (Transaction.default.withFee fee) = .ok user ∧
        Changed sampleInputs user.inner tx := by
  obtain ⟨tx, htx⟩ := Result.exists_eq_ok
    (show (build sampleEnvironment sampleInputs sampleCallback).isOk by decide +kernel)
  have hplain : ∀ tx user, sampleCallback tx = .ok user → user.changeStrategy.Plain := by
    intro tx user huser
    cases huser
    exact .asLastOutput .default
  exact ⟨tx, htx, (change_balances sampleEnvironment sampleInputs).2 sampleCallback hplain tx htx⟩

/-- Without inputs, five of an asset that are minted are paid out. -/
def mintingTx : Transaction where
  inner := { Tx.empty with
    outputs := [(Output.new .default ⟨0, sampleAssets 7 5⟩).toPallas]
    mint := intoMultiasset (sampleAssets 7 5) }
  changeStrategy := .asFirstOutput .default

/-- Two inputs without an output. -/
def spendingTx : Transaction where
  inner := { Tx.empty with inputs := [sampleInput 0, sampleInput 1] }
  changeStrategy := .asFirstOutput .default

/-- Inputs whose lovelace goes around to nothing. -/
def wrappingInputs : ResolvedInputs :=
  .ofList [(sampleInput 0, .new .default (.new 9223372036854775808)),
    (sampleInput 1, .new .default (.new 9223372036854775808))] compare

/-- What is minted counts where the inputs do not suffice, and sums that do not fit are lost. -/
theorem not_covered_of_mint :
    (∃ tx', withChange sampleEnvironment ∅ mintingTx = .ok tx' ∧
      spentTotal ∅ mintingTx.inner (sampleUnit 7) <
        paidTotal mintingTx.inner (sampleUnit 7) + burnedTotal mintingTx.inner (sampleUnit 7) +
          feeTotal mintingTx.inner (sampleUnit 7)) ∧
    ∃ tx', withChange sampleEnvironment wrappingInputs spendingTx = .ok tx' ∧
      ¬Balanced wrappingInputs tx'.inner .lovelace := by
  constructor
  · obtain ⟨tx', htx'⟩ := Result.exists_eq_ok
      (show (withChange sampleEnvironment ∅ mintingTx).isOk by decide +kernel)
    exact ⟨tx', htx', by decide +kernel⟩
  · have hbalance : balance sampleEnvironment wrappingInputs spendingTx.inner = .ok (.new 0) := by
      decide +kernel
    refine ⟨spendingTx, ?_, ?_⟩
    · rw [withChange, hbalance]
      rfl
    · rw [Balanced]
      decide +kernel

end Konduit.Cardano.Builder
