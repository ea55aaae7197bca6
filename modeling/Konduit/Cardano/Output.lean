import Konduit.Cardano.Value

/-!
# Outputs

An output as the builder has it, with a value that is given or the least that is accepted; and as
it stands in a transaction, where quantities are positive and nothing is empty.  An output of a
transaction stays as it is when it is read and put back (`toPallas_ofPallas`).
-/

open Lib

namespace Konduit.Cardano

/-! ### Addresses, datums and scripts -/

/-- What pays or delegates for an address. -/
inductive Credential where
  | key (hash : BytesN 28)
  | script (hash : BytesN 28)
deriving DecidableEq

namespace Credential

/-- The hash, if it is of a key. -/
def asKey : Credential → Option (BytesN 28)
  | key hash => some hash
  | script _ => none

/-- The hash, if it is of a script. -/
def asScript : Credential → Option (BytesN 28)
  | key _ => none
  | script hash => some hash

end Credential

/-- The network of an address. -/
inductive NetworkId where
  | testnet
  | mainnet
deriving DecidableEq

/-- An address. -/
inductive Address where
  | byron (bytes : Bytes)
  | shelley (network : NetworkId) (payment : Credential) (delegation : Option Credential)
deriving DecidableEq

namespace Address

/-- The payment credential of a Shelley address. -/
def payment? : Address → Option Credential
  | byron _ => none
  | shelley _ payment _ => some payment

/-- The address that stands for any while an output is measured. -/
def default : Address :=
  shelley .mainnet (.key (.fill 28 0)) (some (.key (.fill 28 0)))

end Address

/-- A datum, an inline one as its bytes. -/
inductive Datum where
  | hash (hash : BytesN 32)
  | inline (data : Bytes)
deriving DecidableEq

/-- The version of a script's language. -/
inductive PlutusVersion where
  | v1
  | v2
  | v3
deriving DecidableEq

/-- A script. -/
structure PlutusScript where
  version : PlutusVersion
  bytes : Bytes
deriving DecidableEq

/-- The size of a script. -/
def PlutusScript.size (script : PlutusScript) : UInt64 := .ofNat script.bytes.length

/-! ### Values of a transaction -/

/-- Assets of which there are some: no null quantities, no empty policies, not none at all. -/
structure Multiasset (Q : Type) [Zero Q] where
  assets : Assets Q
  normal : assets.Normal
  ne_empty : assets ≠ ∅
deriving DecidableEq

/-- The assets without null quantities, where any are left. -/
def intoMultiasset {Q : Type} [Zero Q] [DecidableEq Q] (assets : Assets Q) :
    Option (Multiasset Q) :=
  if h : assets.pruneNullValues = ∅ then none
  else some ⟨assets.pruneNullValues, Assets.normal_pruneNullValues assets, h⟩

/-- The value of an output in a transaction. -/
inductive PallasValue where
  | coin (lovelace : UInt64)
  | multiasset (lovelace : UInt64) (assets : Multiasset UInt64)
deriving DecidableEq

namespace Value

/-- The value as it is written. -/
def toPallas (value : Value UInt64) : PallasValue :=
  match intoMultiasset value.assets with
  | some assets => .multiasset value.lovelace assets
  | none => .coin value.lovelace

/-- The value that is written. -/
def ofPallas : PallasValue → Value UInt64
  | .coin lovelace => ⟨lovelace, ∅⟩
  | .multiasset lovelace assets => ⟨lovelace, assets.assets⟩

/-- What a transaction has of a value is the value without its null entries. -/
lemma ofPallas_toPallas (value : Value UInt64) : ofPallas value.toPallas = value.pruned := by
  rw [toPallas, intoMultiasset]
  by_cases h : value.assets.pruneNullValues = ∅
  · rw [dif_pos h, pruned, h, ofPallas]
  · rw [dif_neg h, ofPallas, pruned]

theorem toPallas_ofPallas (value : PallasValue) : (ofPallas value).toPallas = value := by
  cases value with
  | coin lovelace =>
    have hempty : (∅ : Assets UInt64).pruneNullValues = ∅ :=
      Assets.pruneNullValues_of_normal Assets.Normal.empty
    rw [ofPallas, toPallas, intoMultiasset, dif_pos hempty]
  | multiasset lovelace assets =>
    obtain ⟨assets, hnormal, hne⟩ := assets
    have hself := Assets.pruneNullValues_of_normal hnormal
    have hsome : intoMultiasset assets = some ⟨assets, hnormal, hne⟩ := by
      rw [intoMultiasset, dif_neg (by rwa [hself])]
      simp only [hself]
    rw [ofPallas, toPallas, hsome]

end Value

/-! ### Outputs -/

/-- A value that is given, or one that is to be the least that is accepted. -/
inductive DeferredValue where
  | minimum (value : Value UInt64)
  | explicit (value : Value UInt64)
deriving DecidableEq

/-- An output that may still have to be given its least value. -/
structure Output where
  address : Address
  deferred : DeferredValue
  datum : Option Datum
  script : Option PlutusScript
deriving DecidableEq

/-- An output in a transaction.  The builder makes no legacy outputs, and none with native scripts.
-/
structure TransactionOutput where
  address : Address
  value : PallasValue
  datum : Option Datum
  script : Option PlutusScript
deriving DecidableEq

namespace Output

/-- An output of this value. -/
def new (address : Address) (value : Value UInt64) : Output :=
  ⟨address, .explicit value, none, none⟩

/-- The value of an output as it is now. -/
def value (output : Output) : Value UInt64 :=
  match output.deferred with
  | .minimum value => value
  | .explicit value => value

/-- The output as it is written. -/
def toPallas (output : Output) : TransactionOutput :=
  ⟨output.address, output.value.toPallas, output.datum, output.script⟩

/-- The lovelace to be held for each byte. -/
def minValuePerUtxoByte : UInt64 := 4310

/-- The bytes that are counted beside those of the output. -/
def minLovelaceValueCborOverhead : UInt64 := 160

/-- What an output needs to hold at least, with the size of its encoding. -/
def minAcceptableValue (size : TransactionOutput → UInt64) (output : Output) : UInt64 :=
  let currentValue := output.value.lovelace
  let extraSize :=
    if currentValue < 24 then 4
    else if currentValue < 256 then 3
    else if currentValue < 65535 then 2
    else 0
  minValuePerUtxoByte * (size output.toPallas + minLovelaceValueCborOverhead + extraSize)

/-- A value that is not given is raised to the least that is accepted. -/
def setMinimumUtxoValue (size : TransactionOutput → UInt64) (output : Output) : Output :=
  match output.deferred with
  | .explicit _ => output
  | .minimum value =>
    { output with deferred := .minimum { value with lovelace := output.minAcceptableValue size } }

/-- The output with a datum, and the least value for it. -/
def withDatum (size : TransactionOutput → UInt64) (output : Output) (datum : Datum) : Output :=
  setMinimumUtxoValue size { output with datum := some datum }

/-- The output with a script, and the least value for it. -/
def withPlutusScript (size : TransactionOutput → UInt64) (output : Output)
    (script : PlutusScript) : Output :=
  setMinimumUtxoValue size { output with script := some script }

/-- Read an output of a transaction. -/
def ofPallas (size : TransactionOutput → UInt64) (source : TransactionOutput) : Output :=
  let output := new source.address (.ofPallas source.value)
  let output := source.datum.elim output (output.withDatum size)
  source.script.elim output (output.withPlutusScript size)

variable {size : TransactionOutput → UInt64}

/-- The value that is read is given, so it is not raised. -/
lemma ofPallas_eq (source : TransactionOutput) :
    ofPallas size source =
      ⟨source.address, .explicit (.ofPallas source.value), source.datum, source.script⟩ := by
  obtain ⟨address, value, datum, script⟩ := source
  cases datum <;> cases script <;> rfl

lemma value_ofPallas (source : TransactionOutput) :
    (ofPallas size source).value = .ofPallas source.value := by
  rw [ofPallas_eq, value]

/-- An output that is read and put back is as it was. -/
theorem toPallas_ofPallas (source : TransactionOutput) :
    (ofPallas size source).toPallas = source := by
  rw [ofPallas_eq, toPallas, value, Value.toPallas_ofPallas]

end Output

end Konduit.Cardano
