import Konduit.Data.Stage
import Konduit.Kernel.Spend

/-!
# What a transaction says of a channel

The datum of an output and the redeemer of an input, as they are written into a transaction.
The kernel reads back of a datum what was written (`Datum.ofData_toData`).
-/

open Lib

namespace Konduit.Data

/-! ### Datums -/

/-- The constants as data. -/
def Constants.toData (self : Constants) : Plutus.Data :=
  .list [.bytes self.tag.bytes, .bytes self.addVkey.bytes.1, .bytes self.subVkey.bytes.1,
    .int self.closePeriod.toInt]

/-- A used cheque as data. -/
def Used.toData (self : Used) : Plutus.Data :=
  .list [.int self.index.toNat, .int self.amount.toNat]

/-- A pending cheque as data. -/
def Pending.toData (self : Pending) : Plutus.Data :=
  .list [.int self.amount.toNat, .int self.timeout.toInt, .bytes self.lock.bytes.1]

/-- A stage as data, a constructor for each. -/
def Stage.toData : Stage → Plutus.Data
  | opened subbed useds => .constr 0 [.int subbed.toNat, .list (useds.map Used.toData)]
  | closed subbed useds elapseAt =>
    .constr 1 [.int subbed.toNat, .list (useds.map Used.toData), .int elapseAt.toInt]
  | responded pendingsAmount pendings =>
    .constr 2 [.int pendingsAmount.toNat, .list (pendings.map Pending.toData)]

/-- The datum of a channel. -/
structure Datum where
  ownHash : Kernel.ScriptHash
  constants : Constants
  stage : Stage

/-- A datum as data. -/
def Datum.toData (self : Datum) : Plutus.Data :=
  .list [.bytes self.ownHash, self.constants.toData, self.stage.toData]

lemma Stage.ofData_toData (self : Stage) :
    Kernel.Stage.ofData self.toData = some self.toKernel := by
  have huseds : ∀ useds : List Used, (useds.map Used.toData).mapM Kernel.Used.ofData =
      some (useds.map Used.toKernel) := fun _ => Plutus.mapM_map_of_read fun _ _ => rfl
  have hpendings : ∀ pendings : List Pending,
      (pendings.map Pending.toData).mapM Kernel.Pending.ofData =
        some (pendings.map Pending.toKernel) := fun _ => Plutus.mapM_map_of_read fun _ _ => rfl
  cases self with
  | opened subbed useds => simp [toData, Kernel.Stage.ofData, huseds, toKernel]
  | closed subbed useds elapseAt => simp [toData, Kernel.Stage.ofData, huseds, toKernel]
  | responded amount pendings => simp [toData, Kernel.Stage.ofData, hpendings, toKernel]

lemma Datum.ofData_toData (self : Datum) :
    Kernel.Datum.ofData self.toData =
      some ⟨self.ownHash, self.constants.toKernel, self.stage.toKernel⟩ := by
  have hconstants : Kernel.Constants.ofData self.constants.toData =
      some self.constants.toKernel := rfl
  simp only [toData, Kernel.Datum.ofData, hconstants, self.stage.ofData_toData,
    Option.bind_eq_bind, Option.bind_some, Option.pure_def]

/-! ### Redeemers -/

/-- A step of one channel, which goes on or ends. -/
inductive Step where
  | cont (step : Cont)
  | eol (step : Kernel.Eol)

namespace Step

/-- The steps that the adaptor signs. -/
def isAdaptor : Step → Bool
  | cont (.sub _ _) | cont (.respond _ _) | cont (.unlock _) => true
  | _ => false

/-- The consumer signs the step. -/
def isConsumer (self : Step) : Bool := !self.isAdaptor

/-- The step as the kernel reads it. -/
def toKernel : Step → Kernel.Step
  | cont step => .stepCont step.toKernel
  | eol step => .stepEol step

end Step

/-- What a channel is spent by. -/
inductive Redeemer where
  | defer
  | main (steps : List Step)
  | mutual

/-- The redeemer as the kernel reads it. -/
def Redeemer.toKernel : Redeemer → Kernel.Redeemer
  | defer => .defer
  | main steps => .main (steps.map Step.toKernel)
  | .mutual => .mutual

end Konduit.Data
