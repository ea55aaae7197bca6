import Konduit.Tmp.Receipt
import Konduit.Tx.Reading

/-!
# What a receipt is good for on chain

The evidence of a receipt as a sub or a respond uses it, and the steps that the first
transaction builder makes of it.
-/

open Lib

namespace Konduit.Tmp

open Data

namespace Receipt

/-- The cheques that a sub uses, and the useds of the continuing datum. -/
def prepSub (self : Receipt) (useds : List Used) (upper : Duration) :
    List (Unlocked .verified) × List Used :=
  let unlockeds := (self.cheques.filterMap Cheque.asUnlocked).filter fun u =>
    u.timeout > upper && !useds.any fun x => x.index = u.index
  let nextUseds := (useds.filter fun u => !self.squash.isIndexSquashed u.index) ++
    unlockeds.map Used.ofUnlocked
  (unlockeds, nextUseds.mergeSort fun a b => a.index ≤ b.index)

/-- The cheques that a respond uses, the pendings of the continuing datum, and what is owed
on top of the squash. -/
def prepRespond (self : Receipt) (useds : List Used) (upper : Duration) :
    List (Cheque .verified) × List Pending × UInt64 :=
  let totalAmount := Word.sum
    ((useds.filter fun u => !self.squash.isIndexSquashed u.index).map Used.amount)
  let cheques := self.cheques.filter fun c =>
    c.timeout > upper && !useds.any fun x => x.index = c.index
  let pendings := (cheques.filterMap Cheque.asLocked).map Pending.ofLocked
  let unlockedAmount := Word.sum ((cheques.filterMap Cheque.asUnlocked).map ChequeSigned.amount)
  (cheques, pendings, totalAmount + unlockedAmount)

end Receipt

end Konduit.Tmp

namespace Konduit.Tx

open Data Tmp

namespace Variables

/-- What a sub leaves. -/
def sub (self : Variables) (gain : UInt64) (useds : List Used) : Except StepError Variables :=
  match self.stage with
  | .opened subbed _ => .ok ⟨self.amount - gain, .opened (subbed + gain) useds⟩
  | stage => .error (.pair (label stage) "Sub")

/-- What a respond leaves. -/
def respond (self : Variables) (gain : UInt64) (pendings : List Pending) :
    Except StepError Variables :=
  match self.stage with
  | .closed _ _ _ =>
    let pendingsAmount := Word.sum (pendings.map Pending.amount)
    .ok ⟨self.amount - gain, .responded pendingsAmount pendings⟩
  | stage => .error (.pair (label stage) "Respond")

end Variables

namespace Channel

/-- A sub of what the receipt gains. -/
def sub (self : Channel) (receipt : Receipt) (upper : Duration) : Except StepError Stepped :=
  match self.stage with
  | .opened subbed useds => do
    let (unlockeds, useds) := receipt.prepSub useds upper
    let squash := receipt.squash
    let absoluteOwed := squash.amount + Word.sum (useds.map Used.amount)
    let relativeOwed := Word.satSub absoluteOwed subbed
    let gain := min relativeOwed self.vars.amount
    if gain = 0 then .error .noStep
    else
      let vars ← self.vars.sub gain useds
      return ⟨self, .cont (.sub (squash.withState .unverified)
        (unlockeds.map (ChequeSigned.withState .unverified))) vars, Bounds.ofUpper upper⟩
  | stage => .error (.pair (label stage) "Sub")

/-- A respond with what the receipt gains, in which the locked cheques go on pending. -/
def respond (self : Channel) (receipt : Receipt) (upper : Duration) : Except StepError Stepped :=
  match self.stage with
  | .closed subbed useds _ => do
    let (cheques, pendings, usedsAmount) := receipt.prepRespond useds upper
    let squash := receipt.squash
    let absoluteOwed := squash.amount + usedsAmount
    let relativeOwed := Word.satSub absoluteOwed subbed
    let gain := min relativeOwed self.vars.amount
    let vars ← self.vars.respond gain pendings
    return ⟨self, .cont (.respond (squash.withState .unverified)
      (cheques.map (Cheque.withState .unverified))) vars, Bounds.ofUpper upper⟩
  | stage => .error (.pair (label stage) "Respond")

end Channel

end Konduit.Tx
