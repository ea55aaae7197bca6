import Konduit.Kernel.Lifecycle

/-!
# Transactions, as the validator sees them

The ledger's inputs and outputs, as far as the validator looks at them, and the datum of a
channel in the output that carries it.
-/

open Lib

namespace Konduit.Kernel

/-! ### Addresses -/

/-- The hash of a script. -/
abbrev ScriptHash := Bytes

/-- The hash of a verification key. -/
abbrev VerificationKeyHash := Bytes

/-- What pays or delegates for an address. -/
inductive Credential where
  | verificationKey (hash : VerificationKeyHash)
  | script (hash : ScriptHash)
deriving DecidableEq

/-- The stake part of an address, in full or by a pointer to its registration. -/
inductive Referenced where
  | inline (credential : Credential)
  | pointer (slotNumber transactionIndex certificateIndex : ℤ)
deriving DecidableEq

/-- An address. -/
structure Address where
  paymentCredential : Credential
  stakeCredential : Option Referenced
deriving DecidableEq

/-! ### Outputs and inputs -/

/-- The datum of an output: none, a hash of one that the transaction may carry, or the datum
itself. -/
inductive OutputDatum where
  | noDatum
  | datumHash (hash : Bytes)
  | inlineDatum (data : Plutus.Data)

/-- An output of the ledger.  It always holds lovelace, in 64 bits, which its value lists
first. -/
structure Output where
  address : Address
  lovelace : UInt64
  /-- What it holds besides lovelace, by policy. -/
  assets : Value
  datum : OutputDatum
  referenceScript : Option ScriptHash

/-- The value of an output, with the lovelace in front. -/
def Output.value (output : Output) : Value := ([], [([], output.lovelace.toNat)]) :: output.assets

@[simp] lemma Output.amountIn_value (output : Output) :
    amountIn output.value = output.lovelace.toNat := rfl

/-- The kernel's reading of an output's amount is its lovelace. -/
lemma Output.lovelace_of_amountOut {output : Output} {amount : Amount}
    (h : amountOut output.value = some amount) : output.lovelace.toNat = amount := by
  rw [amountOut, value] at h
  cases hassets : output.assets with
  | nil =>
    rw [hassets] at h
    exact Option.some.inj h
  | cons _ _ =>
    rw [hassets] at h
    simp [onlyAda] at h

/-- An amount that the kernel finds no less than an output's is no less in lovelace. -/
lemma Output.le_of_amountOut (output : Output) {output' : Output} {amount : Amount}
    (h : amountOut output'.value = some amount) (hle : amountIn output.value ≤ amount) :
    output.lovelace ≤ output'.lovelace := by
  rw [← lovelace_of_amountOut h, amountIn_value, Nat.cast_le] at hle
  exact UInt64.le_iff_toNat_le.mpr hle

/-- The place of an output. -/
structure OutputReference where
  transactionId : Bytes
  outputIndex : ℕ
deriving DecidableEq

/-- An output that is spent, with its place. -/
structure Input where
  outputReference : OutputReference
  output : Output

/-- The part of a transaction that the validator reads.  No output is spent twice. -/
structure Transaction where
  inputs : List Input
  outputs : List Output
  validityRange : Bounds
  extraSignatories : List VerificationKeyHash
  /-- The datums that the transaction carries, by hash. -/
  datums : List (Bytes × Plutus.Data)
  distinct : (inputs.map Input.outputReference).Nodup

/-! ### Channel datums -/

/-- The datum of a channel. -/
structure Datum where
  ownHash : ScriptHash
  constants : Constants
  stage : Stage
deriving DecidableEq

section OfData

open Plutus

/-- The constants that data denotes. -/
def Constants.ofData : Data → Option Constants
  | .list [.bytes tag, .bytes addVkey, .bytes subVkey, .integer closePeriod _] =>
    some ⟨tag, addVkey, subVkey, closePeriod⟩
  | _ => none

/-- The used cheque that data denotes. -/
def Used.ofData : Data → Option Used
  | .list [.integer index _, .integer amount _] => some ⟨index, amount⟩
  | _ => none

/-- The pending cheque that data denotes. -/
def Pending.ofData : Data → Option Pending
  | .list [.integer amount _, .integer timeout _, .bytes lock] => some ⟨amount, timeout, lock⟩
  | _ => none

/-- The stage that data denotes. -/
def Stage.ofData : Data → Option Stage
  | .constr 0 [.integer subbed _, .list useds] => return .opened subbed (← useds.mapM Used.ofData)
  | .constr 1 [.integer subbed _, .list useds, .integer elapseAt _] =>
    return .closed subbed (← useds.mapM Used.ofData) elapseAt
  | .constr 2 [.integer pendsAmount _, .list pends] =>
    return .responded pendsAmount (← pends.mapM Pending.ofData)
  | _ => none

/-- The datum that data denotes. -/
def Datum.ofData : Data → Option Datum
  | .list [.bytes ownHash, constants, stage] => do
    let constants ← Constants.ofData constants
    let stage ← Stage.ofData stage
    return ⟨ownHash, constants, stage⟩
  | _ => none

end OfData

/-- The datum of a channel must be inline. -/
def coerceDatum : OutputDatum → Option Datum
  | .inlineDatum data => Datum.ofData data
  | _ => none

namespace Output

/-- The channel that an output carries. -/
def channel (output : Output) : Option Datum := coerceDatum output.datum

/-- The output is locked by the script. -/
def atScript (ownHash : ScriptHash) (output : Output) : Bool :=
  output.address.paymentCredential = .script ownHash

end Output

/-- The datum that the ledger hands to the validator of an output. -/
def Transaction.datumOf (tx : Transaction) (output : Output) : Option Plutus.Data :=
  match output.datum with
  | .noDatum => none
  | .datumHash hash => tx.datums.lookup hash
  | .inlineDatum data => some data

/-- An input at the script. -/
def Input.atScript (ownHash : ScriptHash) (input : Input) : Bool := input.output.atScript ownHash

end Konduit.Kernel
