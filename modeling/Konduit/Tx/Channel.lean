import Konduit.Data.Stage
import Konduit.Kernel.Lifecycle

/-!
# Building steps off chain

A channel as the transaction builder reads it off an output, and the steps it builds from
it.  The amount leaves out the ada that every output holds as a buffer.
-/

open Lib

namespace Konduit.Tx

open Data

/-- The lovelace that every output of a channel holds beside its amount. -/
def minAdaBuffer : UInt64 := 2_000_000

/-- Why a step is not built. -/
inductive StepError where
  | noStep
  | pair (stage step : String)
deriving DecidableEq

/-- The name of a stage in error messages. -/
def label : Stage → String
  | .opened _ _ => "Opened"
  | .closed _ _ _ => "Closed"
  | .responded _ _ => "Responded"

/-! ### What changes from step to step -/

/-- What a step changes of a channel. -/
structure Variables where
  amount : UInt64
  stage : Stage
deriving DecidableEq

/-- What an unlock leaves. -/
def Variables.unlock (self : Variables) (gain : UInt64) (pendings : List Pending) :
    Except StepError Variables :=
  match self.stage with
  | .responded _ _ =>
    let pendingsAmount := Word.sum (pendings.map Pending.amount)
    .ok ⟨Word.satSub self.amount gain, .responded pendingsAmount pendings⟩
  | stage => .error (.pair (label stage) "Unlock")

/-- Where a step leads: to a continuing output, or to the channel's end. -/
inductive StepTo where
  | cont (step : Cont) (vars : Variables)
  | eol (step : Kernel.Eol)

/-- The times between which a step is built to be valid. -/
structure Bounds where
  lower : Option Duration
  upper : Option Duration
deriving DecidableEq

/-- Bounds with an upper one only. -/
def Bounds.ofUpper (upper : Duration) : Bounds := ⟨none, some upper⟩

/-! ### Channels -/

/-- A channel: its constants, and what a step changes. -/
structure Channel where
  constants : Constants
  vars : Variables
deriving DecidableEq

/-- A channel with a step that is taken from it. -/
structure Stepped where
  channel : Channel
  stepTo : StepTo
  bounds : Bounds

/-- The amount of a channel whose output holds this. -/
def debufferAmount (lovelace : UInt64) : UInt64 := Word.satSub lovelace minAdaBuffer

lemma toNat_debufferAmount (lovelace : UInt64) :
    (debufferAmount lovelace).toNat = lovelace.toNat - 2_000_000 :=
  Word.toNat_satSub lovelace minAdaBuffer

/-- What is left of a debuffered amount can be buffered again. -/
lemma toNat_rebuffer {lovelace gain : UInt64} (h : gain.toNat ≤ (debufferAmount lovelace).toNat) :
    (debufferAmount lovelace - gain + minAdaBuffer).toNat =
      (lovelace.toNat - 2_000_000) - gain.toNat + 2_000_000 := by
  have hlt := lovelace.toNat_lt
  have hbuffer : minAdaBuffer.toNat = 2_000_000 := rfl
  rw [UInt64.toNat_add, UInt64.toNat_sub_of_le _ _ (UInt64.le_iff_toNat_le.mpr h),
    toNat_debufferAmount, hbuffer]
  omega

namespace Channel

/-- The stage of a channel. -/
def stage (self : Channel) : Stage := self.vars.stage

/-- Every channel output holds the buffer on top of the channel's amount. -/
def bufferedAmount (self : Channel) : UInt64 := self.vars.amount + minAdaBuffer

/-- The value of a channel's output. -/
def bufferedValue (self : Channel) : Kernel.Value := Kernel.ada self.bufferedAmount.toNat

/-- The secret of a lock; of two secrets with one lock the later one stays. -/
def lookup (crypto : Crypto) (secrets : List Secret) (lock : Lock) : Option Secret :=
  (secrets.map fun s => (Lock.ofSecret crypto s, s)).reverse.lookup lock

/-- What is done with a pending. -/
def unpend (crypto : Crypto) (secrets : List Secret) (upper : Duration) (p : Pending) : Unpend :=
  if p.timeout ≥ upper then .continue
  else
    match lookup crypto secrets p.lock with
    | some secret => .unlock secret.bytes
    | none => .continue

/-- Unlock the pendings whose secret is known. -/
def unlockWithSecrets (self : Channel) (crypto : Crypto) (secrets : List Secret)
    (upper : Duration) : Except StepError Stepped :=
  match self.stage with
  | .responded _ pendings => do
    let unpends := pendings.map (unpend crypto secrets upper)
    let kept := (pendings.zip unpends).filter fun x => !x.2.isContinue
    let gain := Word.sum (kept.map fun x => x.1.amount)
    let vars ← self.vars.unlock gain (kept.map Prod.fst)
    return ⟨self, .cont (.unlock unpends) vars, Bounds.ofUpper upper⟩
  | stage => .error (.pair (label stage) "Unlock")

end Channel

namespace Stepped

/-- The channel in the continuing output. -/
def contData (self : Stepped) : Option Channel :=
  match self.stepTo with
  | .cont _ vars => some ⟨self.channel.constants, vars⟩
  | .eol _ => none

/-- What the kernel makes of the step: the input as it stands, the continuing output as it
is built. -/
def run (self : Stepped) (crypto : Crypto) (bounds : Kernel.Bounds)
    (constants : Kernel.Constants) (valueIn : Kernel.Value) (stageIn : Kernel.Stage) :
    Option Kernel.VerificationKey :=
  match self.stepTo with
  | .cont step vars =>
    let out : Channel := ⟨self.channel.constants, vars⟩
    Kernel.cont crypto bounds constants valueIn stageIn out.bufferedValue out.stage.toKernel
      step.toKernel
  | .eol step => Kernel.eol bounds constants stageIn step

end Stepped

end Konduit.Tx
