import Mathlib.Data.List.Dedup
import Konduit.Cardano.CheckedSub
import Konduit.Cardano.Output
import Konduit.Cardano.Transaction
import Konduit.Lib.Result

/-!
# The transaction builder

The builder runs the user's callback on a transaction with a fee, adds what is left over as change,
sets the execution units that the scripts were last found to use, and evaluates the scripts.  It
starts over with the fee that comes out, until the fee suffices.

What is computed elsewhere is an argument: the sizes of encodings, the hash over the scripts' data,
the evaluation of scripts, and the fees that parameters give as fractions (`Environment`).
-/

open Lib

namespace Konduit.Cardano.Builder

open Kernel (OutputReference)

/-! ### Redeemers -/

/-- What a redeemer is for. -/
inductive RedeemerTag where
  | spend
  | mint
  | cert
  | reward
  | vote
  | propose
deriving DecidableEq

/-- The tags in their order. -/
def RedeemerTag.number : RedeemerTag → ℕ
  | spend => 0
  | mint => 1
  | cert => 2
  | reward => 3
  | vote => 4
  | propose => 5

/-- The place of what a redeemer is for. -/
structure RedeemerPointer where
  tag : RedeemerTag
  index : UInt32
deriving DecidableEq

namespace RedeemerPointer

/-- The pointer to an input. -/
def fromSpend (index : UInt32) : RedeemerPointer := ⟨.spend, index⟩

/-- The pointer to a policy that is minted. -/
def fromMint (index : UInt32) : RedeemerPointer := ⟨.mint, index⟩

instance instOrd : Ord RedeemerPointer :=
  ⟨compareLex (compareOn fun ptr => ptr.tag.number) (compareOn index)⟩

instance instTransOrd : Std.TransOrd RedeemerPointer :=
  inferInstanceAs (Std.TransCmp
    (compareLex (compareOn fun ptr : RedeemerPointer => ptr.tag.number) (compareOn index)))

instance instLawfulEqOrd : Std.LawfulEqOrd RedeemerPointer where
  eq_of_compare := by
    rintro ⟨tag, index⟩ ⟨tag', index'⟩ h
    obtain ⟨htag, hindex⟩ := Ordering.then_eq_eq.mp h
    have heq : tag.number = tag'.number := Std.LawfulEqCmp.eq_of_compare htag
    have heq' : index = index' := Std.LawfulEqCmp.eq_of_compare hindex
    cases tag <;> cases tag' <;> simp_all [RedeemerTag.number]

end RedeemerPointer

/-- What a script uses. -/
structure ExecutionUnits where
  mem : UInt64
  cpu : UInt64
deriving DecidableEq

/-- The data for a script, and what it may use. -/
structure Redeemer where
  data : Bytes
  exUnits : ExecutionUnits
deriving DecidableEq

/-! ### Transactions -/

/-- What is laid down of a transaction.  There are no certificates, withdrawals, treasury donations
or proposals. -/
structure Tx where
  inputs : List OutputReference
  outputs : List TransactionOutput
  fee : UInt64
  mint : Option (Multiasset Int64)
  collaterals : List OutputReference
  collateralReturn : Option TransactionOutput
  totalCollateral : Option UInt64
  referenceInputs : List OutputReference
  requiredSigners : List (BytesN 28)
  validityStart : Option UInt64
  ttl : Option UInt64
  scriptDataHash : Option (BytesN 32)
  redeemers : OrdMap RedeemerPointer Redeemer
  datums : List Bytes
  scripts : List PlutusScript
deriving DecidableEq

/-- The transaction with nothing in it. -/
def Tx.empty : Tx where
  inputs := []
  outputs := []
  fee := 0
  mint := none
  collaterals := []
  collateralReturn := none
  totalCollateral := none
  referenceInputs := []
  requiredSigners := []
  validityStart := none
  ttl := none
  scriptDataHash := none
  redeemers := ∅
  datums := []
  scripts := []

/-- Why a transaction is not built. -/
inductive Error where
  | callback
  | unknownInput (input : OutputReference)
  | insufficientBalance (error : Value.SubError UInt64)
  | noChangeStrategy
  | changeTooSmall (current minimum : UInt64)
  | unknownCollateral (input : OutputReference)
  | insufficientCollateral (error : Value.SubError UInt64)
  | extraneousRedeemers (pointers : List RedeemerPointer)
  | missingIntegrityHash (required : List (RedeemerPointer × BytesN 28))
  | missingCollaterals (pointers : List RedeemerPointer)
  | insufficientOutputs (indexes : List ℕ)
  | unknownOutput (input : OutputReference)
  | evaluation
  | notConverged (fee estimated : UInt64)
deriving DecidableEq

/-- How the change is put among the outputs. -/
abbrev ChangeStrategy := Value UInt64 → List Output → Except Error (List Output)

namespace ChangeStrategy

/-- Without a strategy there is to be no change. -/
def default : ChangeStrategy := fun _ _ => .error .noChangeStrategy

/-- The change comes first. -/
def asFirstOutput (address : Address) : ChangeStrategy := fun change outputs =>
  .ok (.new address change :: outputs)

/-- The change comes last. -/
def asLastOutput (address : Address) : ChangeStrategy := fun change outputs =>
  .ok (outputs ++ [.new address change])

end ChangeStrategy

/-- A transaction in construction. -/
structure Transaction where
  inner : Tx
  changeStrategy : ChangeStrategy

namespace Transaction

/-- The empty transaction. -/
def default : Transaction := ⟨.empty, .default⟩

/-- The transaction with this fee. -/
def withFee (tx : Transaction) (fee : UInt64) : Transaction :=
  { tx with inner := { tx.inner with fee := fee } }

end Transaction

/-! ### What is computed elsewhere -/

/-- The parameters that the builder reads. -/
structure ProtocolParameters where
  feePerByte : UInt64
  feeConstant : UInt64
  /-- The price of memory units, rounded up. -/
  priceMem : UInt64 → UInt64
  /-- The price of cpu units, rounded up. -/
  priceCpu : UInt64 → UInt64
  /-- The least collateral for a fee. -/
  minimumCollateral : UInt64 → UInt64
  /-- The fee for the size of referenced scripts. -/
  referencedScriptsFee : UInt64 → UInt64

/-- The fee by size. -/
def ProtocolParameters.baseFee (params : ProtocolParameters) (size : UInt64) : UInt64 :=
  size * params.feePerByte + params.feeConstant

/-- What the builder is given of the chain and of the libraries below it. -/
structure Environment where
  params : ProtocolParameters
  outputSize : TransactionOutput → UInt64
  txSize : Tx → UInt64
  scriptDataHash : OrdMap RedeemerPointer Redeemer → List Bytes → BytesN 32
  /-- The units that the scripts of a transaction use, by redeemer. -/
  evalPhaseTwo : Tx → Except Error (OrdMap RedeemerPointer ExecutionUnits)

/-- The outputs that may be spent. -/
abbrev ResolvedInputs := OrdMap OutputReference Output

section Build

variable (env : Environment) (resolvedInputs : ResolvedInputs)

/-! ### Change -/

namespace Tx

/-- The mint as a value. -/
def mintValue (tx : Tx) : Value Int64 := ⟨0, tx.mint.elim ∅ Multiasset.assets⟩

/-- The outputs, as the builder has them. -/
def getOutputs (tx : Tx) : List Output := tx.outputs.map (.ofPallas env.outputSize)

end Tx

/-- The quantities of a mint that are minted, or burned; policies of which there are none are left
out. -/
def partitionMint (quantity : Int64 → Option UInt64) (assets : Assets Int64) : Assets UInt64 :=
  assets.filterMap fun _ inner =>
    let inner := inner.filterMap fun _ q => quantity q
    if inner.isEmpty then none else some inner

/-- What is minted, as words. -/
def minted : Assets Int64 → Assets UInt64 :=
  partitionMint fun q => if 0 < q then some q.toUInt64 else none

/-- What is burned, as words. -/
def burned : Assets Int64 → Assets UInt64 :=
  partitionMint fun q => if 0 < q then none else some (-q).toUInt64

/-- A value of assets alone. -/
def ofAssets (assets : Assets UInt64) : Value UInt64 :=
  (Value.new 0).withAssets (assets.toList.map fun x => (x.1, x.2.toList))

/-- Subtract, or fail. -/
def subtract (lhs rhs : Value UInt64) : Except Error (Value UInt64) :=
  match Value.checkedSub lhs rhs with
  | (.ok (), difference) => .ok difference
  | (.error e, _) => .error (.insufficientBalance e)

/-- Add the value of an input to the total. -/
def addInput (total : Value UInt64) (input : OutputReference) : Except Error (Value UInt64) :=
  match resolvedInputs[input]? with
  | none => .error (.unknownInput input)
  | some output => .ok (total.add output.value)

/-- What the inputs and the mint hold beyond the outputs, what is burned and the fee. -/
def balance (tx : Tx) : Except Error (Value UInt64) := do
  let change ← tx.inputs.foldlM (addInput resolvedInputs) (Value.new 0)
  let change := change.add (ofAssets (minted tx.mintValue.assets))
  let change ← subtract change (ofAssets (burned tx.mintValue.assets))
  let change ← (tx.getOutputs env).foldlM (fun total output => subtract total output.value) change
  subtract change (.new tx.fee)

/-- The transaction with an output for the change, which has to be large enough. -/
def withChangeOutput (tx : Transaction) (change : Value UInt64) : Except Error Transaction :=
  let minChangeValue := (Output.new .default change).minAcceptableValue env.outputSize
  if change.lovelace < minChangeValue then
    .error (.changeTooSmall change.lovelace minChangeValue)
  else do
    let outputs ← tx.changeStrategy change (tx.inner.getOutputs env)
    .ok { inner := { tx.inner with outputs := outputs.map Output.toPallas }
          changeStrategy := .default }

/-- The transaction with what it is to pay back, if there is any. -/
def withChange (tx : Transaction) : Except Error Transaction := do
  let change ← balance env resolvedInputs tx.inner
  if change.isEmpty then .ok tx else withChangeOutput env tx change

/-! ### Collateral -/

/-- Add the value of a collateral to the total, and keep the first address. -/
def addCollateral (total : Value UInt64 × Option Address) (input : OutputReference) :
    Except Error (Value UInt64 × Option Address) :=
  match resolvedInputs[input]? with
  | none => .error (.unknownCollateral input)
  | some output => .ok (total.1.add output.value, total.2.or (some output.address))

/-- The transaction with the total collateral, and what is to be returned of it. -/
def withCollateralReturn (tx : Tx) : Except Error Tx := do
  let (total, address) ← tx.collaterals.foldlM (addCollateral resolvedInputs) (Value.new 0, none)
  match address with
  | none => .ok tx
  | some address =>
    let minimumCollateral := env.params.minimumCollateral tx.fee
    match Value.checkedSub total (.new minimumCollateral) with
    | (.error e, _) => .error (.insufficientCollateral e)
    | (.ok (), rest) =>
      .ok { tx with
        totalCollateral := some minimumCollateral
        collateralReturn := some (Output.new address rest).toPallas }

/-! ### Scripts -/

/-- The scripts that are to be run: those of the addresses that are spent from, and those that
mint. -/
def requiredScripts (tx : Tx) : OrdMap RedeemerPointer (BytesN 28) :=
  let fromInputs := tx.inputs.zipIdx.filterMap fun x => do
    let output ← resolvedInputs[x.1]?
    let payment ← output.address.payment?
    let hash ← payment.asScript
    some (RedeemerPointer.fromSpend (.ofNat x.2), hash)
  let fromMint := tx.mintValue.assets.toList.zipIdx.map fun x =>
    (RedeemerPointer.fromMint (.ofNat x.2), x.1.1)
  .ofList (fromInputs ++ fromMint) compare

/-- Set the units that are known for a redeemer. -/
def adjust (units : OrdMap RedeemerPointer ExecutionUnits)
    (redeemers : OrdMap RedeemerPointer Redeemer) : OrdMap RedeemerPointer Redeemer :=
  redeemers.map fun ptr redeemer => { redeemer with exUnits := units[ptr]?.getD redeemer.exUnits }

/-- Set the units that are known.  All of them are to be of redeemers that are there. -/
def withExecutionUnits (tx : Tx) (units : OrdMap RedeemerPointer ExecutionUnits) :
    Except Error Tx :=
  let extraneous := units.filter fun ptr _ => !tx.redeemers.contains ptr
  if extraneous.isEmpty then .ok { tx with redeemers := adjust units tx.redeemers }
  else .error (.extraneousRedeemers extraneous.keys)

/-- The hash over redeemers and datums, where there are any. -/
def scriptIntegrityHash (tx : Tx) : Option (BytesN 32) :=
  if tx.redeemers.isEmpty && tx.datums.isEmpty then none
  else some (env.scriptDataHash tx.redeemers tx.datums)

/-- The transaction with this hash, which it must have where a script is required. -/
def withScriptIntegrityHash (tx : Tx) (required : OrdMap RedeemerPointer (BytesN 28)) :
    Except Error Tx :=
  match scriptIntegrityHash env tx with
  | some hash => .ok { tx with scriptDataHash := some hash }
  | none =>
    if required.isEmpty then .ok tx else .error (.missingIntegrityHash required.toList)

/-- The scripts are evaluated where there are any to be run. -/
def evaluatePlutusScripts (tx : Tx) (required : OrdMap RedeemerPointer (BytesN 28)) :
    Except Error (OrdMap RedeemerPointer ExecutionUnits) :=
  if required.isEmpty then .ok ∅ else env.evalPhaseTwo tx

/-! ### Checks -/

/-- Refuse a transaction that runs scripts and has no collateral. -/
def failOnMissingCollateral (tx : Tx) (required : OrdMap RedeemerPointer (BytesN 28)) :
    Except Error PUnit :=
  if !required.isEmpty && tx.collaterals.isEmpty then .error (.missingCollaterals required.keys)
  else .ok ()

/-- Refuse a transaction with outputs that hold too little. -/
def failOnInsufficientlyFundedOutputs (tx : Tx) : Except Error PUnit :=
  let short := (tx.getOutputs env).zipIdx.filter fun x =>
    decide (x.1.value.lovelace < x.1.minAcceptableValue env.outputSize)
  if short.isEmpty then .ok () else .error (.insufficientOutputs (short.map Prod.snd))

/-! ### Fees -/

/-- The size of the scripts that the inputs and reference inputs hold. -/
def totalInlineScriptsSize (tx : Tx) : Except Error UInt64 :=
  let known := tx.inputs ++ tx.referenceInputs
  match known.find? fun input => !resolvedInputs.contains input with
  | some input => .error (.unknownOutput input)
  | none => .ok (resolvedInputs.foldl
      (fun size input output =>
        if known.contains input then size + output.script.elim 0 PlutusScript.size else size) 0)

/-- The keys that have to sign. -/
def requiredSignatories (tx : Tx) : Except Error (List (BytesN 28)) :=
  let spent := tx.inputs ++ tx.collaterals
  match spent.find? fun input => !resolvedInputs.contains input with
  | some input => .error (.unknownOutput input)
  | none => .ok (tx.requiredSigners ++ spent.filterMap fun input => do
      let output ← resolvedInputs[input]?
      let payment ← output.address.payment?
      payment.asKey).dedup

/-- The bytes of a key and its signature. -/
def sizeOfKeyWitness : UInt64 := 1 + (32 + 2) + (64 + 2)

/-- The bytes around the witnesses. -/
def sizeOfKeyWitnessesOverhead : UInt64 := 2 * (1 + 3 + 3)

/-- The size with a witness for each key. -/
def estimatedSize (tx : Tx) (signatories : List (BytesN 28)) : UInt64 :=
  env.txSize tx + sizeOfKeyWitnessesOverhead + sizeOfKeyWitness * .ofNat signatories.length

/-- The price of all units, each rounded up. -/
def totalExecutionCost (units : OrdMap RedeemerPointer ExecutionUnits) : UInt64 :=
  units.foldl (fun cost _ exUnits =>
    cost + env.params.priceMem exUnits.mem + env.params.priceCpu exUnits.cpu) 0

/-- The fee for the size, for the scripts and for their execution. -/
def estimateFee (tx : Tx) (units : OrdMap RedeemerPointer ExecutionUnits) : Except Error UInt64 :=
  do
    let scriptsSize ← totalInlineScriptsSize resolvedInputs tx
    let signatories ← requiredSignatories resolvedInputs tx
    .ok (env.params.baseFee (estimatedSize env tx signatories) +
      env.params.referencedScriptsFee scriptsSize + totalExecutionCost env units)

/-! ### The loop -/

variable (callback : Transaction → Except Error Transaction)

/-- What a round of the loop comes to. -/
structure Round where
  tx : Tx
  redeemers : OrdMap RedeemerPointer ExecutionUnits
  estimatedFee : UInt64

/-- Build the transaction with a fee and the execution units of the round before, and find out the
units that it uses and the fee that it needs. -/
def round (fee : UInt64) (redeemers : OrdMap RedeemerPointer ExecutionUnits) :
    Except Error Round := do
  let tx ← callback (Transaction.default.withFee fee)
  let required := requiredScripts resolvedInputs tx.inner
  let tx ← withChange env resolvedInputs tx
  let tx ← withCollateralReturn env resolvedInputs tx.inner
  let tx ← withExecutionUnits tx redeemers
  let tx ← withScriptIntegrityHash env tx required
  failOnMissingCollateral tx required
  failOnInsufficientlyFundedOutputs env tx
  let _ ← totalInlineScriptsSize resolvedInputs tx
  let redeemers ← evaluatePlutusScripts env tx required
  let estimatedFee ← estimateFee env resolvedInputs tx redeemers
  .ok ⟨tx, redeemers, estimatedFee⟩

/-- Go on until the fee suffices, with as many more attempts. -/
def attempt (fee : UInt64) (redeemers : OrdMap RedeemerPointer ExecutionUnits) :
    ℕ → Except Error Tx
  | 0 => .error (.notConverged fee fee)
  | attempts + 1 => do
    let next ← round env resolvedInputs callback fee redeemers
    if next.estimatedFee ≤ fee then .ok next.tx
    else if attempts = 0 then .error (.notConverged fee next.estimatedFee)
    else attempt next.estimatedFee next.redeemers attempts

/-- Three attempts are made, the first one without a fee. -/
def build : Except Error Tx := attempt env resolvedInputs callback 0 ∅ 3

/-! ### What a round does -/

section Rounds

variable {env resolvedInputs callback} {tx tx' : Tx}
  {units : OrdMap RedeemerPointer ExecutionUnits} {fee : UInt64} {next : Round}

lemma withCollateralReturn_eq_ok (h : withCollateralReturn env resolvedInputs tx = .ok tx') :
    ∃ total output, tx' = { tx with totalCollateral := total, collateralReturn := output } := by
  rw [withCollateralReturn, Result.bind_eq_ok] at h
  obtain ⟨⟨total, address⟩, -, h⟩ := h
  cases address with
  | none =>
    cases h
    exact ⟨tx.totalCollateral, tx.collateralReturn, rfl⟩
  | some address =>
    simp only at h
    split at h
    · cases h
    · cases h
      exact ⟨_, _, rfl⟩

lemma withExecutionUnits_eq_ok (h : withExecutionUnits tx units = .ok tx') :
    tx' = { tx with redeemers := adjust units tx.redeemers } ∧
      ∀ ptr, units.contains ptr → tx.redeemers.contains ptr := by
  rw [withExecutionUnits] at h
  split at h
  · next hempty =>
    cases h
    refine ⟨rfl, fun ptr hptr => ?_⟩
    by_contra hnot
    have hmem : ptr ∈ units.filter fun ptr _ => !tx.redeemers.contains ptr := by
      rw [Std.ExtTreeMap.mem_filter]
      refine ⟨Std.ExtTreeMap.contains_iff_mem.mp hptr, ?_⟩
      rw [Std.ExtTreeMap.getKey_eq, Bool.not_eq_true', Bool.eq_false_iff]
      exact hnot
    rw [Std.ExtTreeMap.isEmpty_iff.mp hempty] at hmem
    exact Std.ExtTreeMap.not_mem_empty hmem
  · cases h

lemma withScriptIntegrityHash_eq_ok {required : OrdMap RedeemerPointer (BytesN 28)}
    (h : withScriptIntegrityHash env tx required = .ok tx') :
    ∃ hash, tx' = { tx with scriptDataHash := hash } := by
  rw [withScriptIntegrityHash] at h
  split at h
  · cases h
    exact ⟨_, rfl⟩
  · split at h
    · cases h
      exact ⟨tx.scriptDataHash, rfl⟩
    · cases h

/-- A round adds change, collateral, execution units and the hash over them. -/
theorem round_eq_ok (h : round env resolvedInputs callback fee units = .ok next) :
    ∃ user changed total output hash,
      callback (Transaction.default.withFee fee) = .ok user ∧
      withChange env resolvedInputs user = .ok changed ∧
      next.tx = { changed.inner with
        totalCollateral := total, collateralReturn := output, scriptDataHash := hash
        redeemers := adjust units changed.inner.redeemers } ∧
      (∀ ptr, units.contains ptr → changed.inner.redeemers.contains ptr) ∧
      evaluatePlutusScripts env next.tx (requiredScripts resolvedInputs user.inner) =
        .ok next.redeemers ∧
      estimateFee env resolvedInputs next.tx next.redeemers = .ok next.estimatedFee := by
  simp only [round, Result.bind_eq_ok] at h
  obtain ⟨user, huser, changed, hchanged, collateral, hcollateral, adjusted, hadjusted, final,
    hfinal, -, -, -, -, -, -, redeemers, hredeemers, estimated, hestimated, h⟩ := h
  cases h
  obtain ⟨total, output, rfl⟩ := withCollateralReturn_eq_ok hcollateral
  obtain ⟨rfl, hcontains⟩ := withExecutionUnits_eq_ok hadjusted
  obtain ⟨hash, rfl⟩ := withScriptIntegrityHash_eq_ok hfinal
  exact ⟨user, changed, total, output, hash, huser, hchanged, rfl, hcontains, hredeemers,
    hestimated⟩

variable (env resolvedInputs callback)

/-- The fee and the units with which a round is entered, and the attempts that are left. -/
inductive Entered : UInt64 → OrdMap RedeemerPointer ExecutionUnits → ℕ → Prop where
  | start : Entered 0 ∅ 3
  | next {fee : UInt64} {units : OrdMap RedeemerPointer ExecutionUnits} {attempts : ℕ}
      {next : Round} (h : Entered fee units (attempts + 2))
      (hround : round env resolvedInputs callback fee units = .ok next)
      (hlt : fee < next.estimatedFee) :
      Entered next.estimatedFee next.redeemers (attempts + 1)

/-- The transaction is that of the first round that is entered with a fee that suffices. -/
structure Last (fee : UInt64) (units : OrdMap RedeemerPointer ExecutionUnits) (tx : Tx) : Prop where
  entered : ∃ attempts, Entered env resolvedInputs callback fee units (attempts + 1)
  round_eq : ∃ next, round env resolvedInputs callback fee units = .ok next ∧ next.tx = tx ∧
    next.estimatedFee ≤ fee

variable {env resolvedInputs callback}

lemma exists_last_of_attempt {attempts : ℕ}
    (hentered : Entered env resolvedInputs callback fee units attempts)
    (h : attempt env resolvedInputs callback fee units attempts = .ok tx) :
    ∃ fee units, Last env resolvedInputs callback fee units tx := by
  induction attempts generalizing fee units with
  | zero => cases h
  | succ attempts ih =>
    rw [attempt, Result.bind_eq_ok] at h
    obtain ⟨next, hround, h⟩ := h
    by_cases hle : next.estimatedFee ≤ fee
    · rw [if_pos hle] at h
      cases h
      exact ⟨fee, units, ⟨attempts, hentered⟩, next, hround, rfl, hle⟩
    · rw [if_neg hle] at h
      cases attempts with
      | zero =>
        rw [if_pos rfl] at h
        cases h
      | succ attempts =>
        rw [if_neg (Nat.succ_ne_zero attempts)] at h
        exact ih (hentered.next hround (not_le.mp hle)) h

/-- What is built is the transaction of a last round. -/
theorem exists_last_of_build (h : build env resolvedInputs callback = .ok tx) :
    ∃ fee units, Last env resolvedInputs callback fee units tx :=
  exists_last_of_attempt .start h

end Rounds

end Build

end Konduit.Cardano.Builder
