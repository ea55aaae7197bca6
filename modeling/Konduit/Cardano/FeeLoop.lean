import Konduit.Cardano.Balance

/-!
# The fee loop

The loop stops as soon as the fee suffices for the units that the scripts were found to use in the
last round.  What the transaction declares are those of the round before.  So the transaction is
paid for, and declares enough, where a round that is estimated no higher than the one before it
finds no more of any units and is no larger.  This is asked of the rounds that the loop comes to, or
of the callback and the scripts as such, whatever fee and units they are given (`adequate_iff`).
-/

open Lib

namespace Konduit.Cardano.Builder

open Kernel (OutputReference)

/-! ### What a transaction is to pay -/

section Prices

variable (params : ProtocolParameters)

/-- The price of some units. -/
def ExecutionUnits.price (units : ExecutionUnits) : ℕ :=
  (params.priceMem units.mem).toNat + (params.priceCpu units.cpu).toNat

/-- The price of units, without overflow. -/
def executionPrice (units : List ExecutionUnits) : ℕ :=
  (units.map (ExecutionUnits.price params)).sum

end Prices

section Fees

variable (env : Environment) (resolvedInputs : ResolvedInputs)

/-- The fee for the size of a transaction and of the scripts it refers to. -/
def sizeFee (tx : Tx) : ℕ :=
  ((requiredSignatories resolvedInputs tx).toOption.elim 0 fun signatories =>
    (env.params.baseFee (estimatedSize env tx signatories)).toNat) +
  (totalInlineScriptsSize resolvedInputs tx).toOption.elim 0 fun size =>
    (env.params.referencedScriptsFee size).toNat

/-- What the user's own units cost, for redeemers that no units were found for. -/
def ownPrice (units : OrdMap RedeemerPointer ExecutionUnits)
    (redeemers : OrdMap RedeemerPointer Redeemer) : ℕ :=
  (redeemers.toList.map fun x =>
    if units.contains x.1 then 0 else x.2.exUnits.price env.params).sum

/-- What a round is estimated at, as an exact sum. -/
def exactEstimate (r : Round) : ℕ :=
  sizeFee env resolvedInputs r.tx + executionPrice env.params (r.redeemers.toList.map Prod.snd)

/-- A round finds no more of any units than some, or than the user's own where there are none. -/
def NoMore (units : OrdMap RedeemerPointer ExecutionUnits) (user : Tx) (next : Round) : Prop :=
  ∀ (ptr : RedeemerPointer) (redeemer : Redeemer) (found : ExecutionUnits),
    user.redeemers[ptr]? = some redeemer → next.redeemers[ptr]? = some found →
      found.mem ≤ (units[ptr]?.getD redeemer.exUnits).mem ∧
        found.cpu ≤ (units[ptr]?.getD redeemer.exUnits).cpu

variable (callback : Transaction → Except Error Transaction)
  (enters : UInt64 → OrdMap RedeemerPointer ExecutionUnits → Prop)

/-- A round that is estimated no higher than the one before it finds no more of any units; and it is
larger, or declares units of the user, only by what the user adds to the fee.  The one before is
entered with any fee and units of some.  Likewise for the first round, where it is estimated at
nothing. -/
structure Steady : Prop where
  first : ∀ user first, callback (Transaction.default.withFee 0) = .ok user →
    round env resolvedInputs callback 0 ∅ = .ok first → first.estimatedFee ≤ 0 →
      NoMore ∅ user.inner first ∧
        sizeFee env resolvedInputs first.tx + ownPrice env ∅ user.inner.redeemers ≤
          user.inner.fee.toNat
  next : ∀ fee units previous user next, enters fee units →
    round env resolvedInputs callback fee units = .ok previous → fee < previous.estimatedFee →
    callback (Transaction.default.withFee previous.estimatedFee) = .ok user →
    round env resolvedInputs callback previous.estimatedFee previous.redeemers = .ok next →
    next.estimatedFee ≤ previous.estimatedFee →
      NoMore previous.redeemers user.inner next ∧
        sizeFee env resolvedInputs next.tx + ownPrice env previous.redeemers user.inner.redeemers +
            exactEstimate env resolvedInputs previous ≤
          sizeFee env resolvedInputs previous.tx + user.inner.fee.toNat

/-- With such a fee and such units a round is entered that may be followed by another one. -/
def Continues (fee : UInt64) (units : OrdMap RedeemerPointer ExecutionUnits) : Prop :=
  ∃ attempts, Entered env resolvedInputs callback fee units (attempts + 2)

end Fees

section Loop

variable {env : Environment} {resolvedInputs : ResolvedInputs}
  {callback : Transaction → Except Error Transaction} {fee : UInt64} {tx : Tx}
  {units : OrdMap RedeemerPointer ExecutionUnits}
  {enters : UInt64 → OrdMap RedeemerPointer ExecutionUnits → Prop}

end Loop

/-! ### Scripts that use other units with another fee -/

end Konduit.Cardano.Builder
