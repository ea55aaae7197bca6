import Konduit.Tx.Claim

/-!
# Steps of the first builder

The steps of the consumer that continue a channel, and with those of the adaptor all that the
first builder makes of a channel that goes on (`Channel.step`).
-/

open Lib

namespace Konduit.Tx

open Data Tmp

namespace Variables

/-- What an add leaves. -/
def add (self : Variables) (amount : UInt64) : Except StepError Variables :=
  match self.stage with
  | .opened _ _ =>
    if amount = 0 then .error .noStep
    else .ok ⟨self.amount + amount, self.stage⟩
  | stage => .error (.pair (label stage) "Add")

/-- There is nothing where the two durations do not add up, and the thread panics. -/
def close (self : Variables) (upper closePeriod : Duration) :
    Option (Except StepError Variables) :=
  match self.stage with
  | .opened subbed used => do
    let elapseAt ← upper.checkedAdd closePeriod
    return .ok ⟨self.amount, .closed subbed used elapseAt⟩
  | stage => some (.error (.pair (label stage) "Close"))

/-- It is assumed that the pendings were derived sensibly by the caller. -/
def expire (self : Variables) (pendings : List Pending) : Except StepError Variables :=
  match self.stage with
  | .responded _ _ =>
    let pendingsAmount := Word.sum (pendings.map Pending.amount)
    .ok ⟨pendingsAmount, .responded pendingsAmount pendings⟩
  | stage => .error (.pair (label stage) "Expire")

end Variables

/-- Bounds with a lower one only. -/
def Bounds.ofLower (lower : Duration) : Bounds := ⟨some lower, none⟩

namespace Channel

/-- An add of an amount. -/
def add (self : Channel) (amount : UInt64) : Except StepError Stepped := do
  let vars ← self.vars.add amount
  return ⟨self, .cont .add vars, ⟨none, none⟩⟩

/-- A close, unless its time overflows. -/
def close (self : Channel) (upper : Duration) : Option (Except StepError Stepped) := do
  let vars ← self.vars.close upper self.constants.closePeriod
  return vars.map fun vars => ⟨self, .cont .close vars, Bounds.ofUpper upper⟩

/-- What is done with a pending: it expires when its timeout lies before the lower bound. -/
def expireUnpend (lower : Duration) (p : Pending) : Unpend :=
  if p.timeout < lower then .expire else .continue

/-- An expire of the pendings that have timed out. -/
def expire (self : Channel) (lower : Duration) : Except StepError Stepped :=
  match self.stage with
  | .responded _ pendings =>
    let unpends := pendings.map (expireUnpend lower)
    if unpends.all Unpend.isContinue then .error .noStep
    else do
      let pendings := ((pendings.zip unpends).filter fun x => x.2.isContinue).map Prod.fst
      let vars ← self.vars.expire pendings
      return ⟨self, .cont (.expire unpends) vars, Bounds.ofLower lower⟩
  | stage => .error (.pair (label stage) "Expire")

end Channel

/-- What is asked of a channel that goes on. -/
inductive Call where
  | add (amount : UInt64)
  | sub (receipt : Receipt) (upper : Duration)
  | close (upper : Duration)
  | respond (receipt : Receipt) (upper : Duration)
  | unlock (secrets : List Secret) (upper : Duration)
  | expire (lower : Duration)

/-- The step that is made of it, or nothing where the thread panics. -/
def Channel.step (self : Channel) (crypto : Crypto) : Call → Option (Except StepError Stepped)
  | .add amount => some (self.add amount)
  | .sub receipt upper => some (self.sub receipt upper)
  | .close upper => self.close upper
  | .respond receipt upper => some (self.respond receipt upper)
  | .unlock secrets upper => some (self.unlockWithSecrets crypto secrets upper)
  | .expire lower => some (self.expire lower)

end Konduit.Tx
