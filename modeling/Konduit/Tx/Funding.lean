import Mathlib.Tactic.Ring
import Konduit.Lib.Signed
import Konduit.Tx.Fuel
import Konduit.Tx.SteppedUtxos

/-!
# What a batch is funded with

The first builder takes fuel for the fee, and for what a batch loses.  The gain of a batch counts
the buffer of each channel as if it were there, so that a channel whose output has less than its
buffer seems to give more than it does.  A batch is funded just when the wallet has as much, from
the fewest inputs that do; and the inputs of the transaction have what its outputs do, and the fee,
but for what the channels are short of (`funded_batch`).
-/

open Lib

namespace Konduit.Tx

open Data Cardano
open Kernel (OutputReference)

/-- What is left for the fee. -/
def feeBuffer : UInt64 := 3_000_000

/-- Why a batch is not built. -/
inductive FundError where
  | tx (e : TxError)
  | fuel (e : Fuel.SelectError)

variable {hash : Kernel.ScriptHash}

/-- What a channel's output gives, less what its continuing output takes. -/
def SteppedUtxo.gain (self : SteppedUtxo hash) : Int64 :=
  self.data.channel.bufferedAmount.toInt64 -
    (self.data.contData.elim 0 Channel.bufferedAmount).toInt64

/-- What all of them give, as a signed word. -/
def SteppedUtxos.gain (self : SteppedUtxos hash) : Int64 :=
  Signed.sum (self.items.map SteppedUtxo.gain)

/-- What the batch gains, less what is opened. -/
def gainOf (steppeds : SteppedUtxos hash) (opens : List Open) : Int64 :=
  steppeds.gain - (Word.sum (opens.map fun x => x.data.bufferedAmount)).toInt64

/-- What is asked of the wallet. -/
def fuelAmount (gain : Int64) : UInt64 := max feeBuffer (Signed.satSub feeBuffer gain)

/-- The inputs that are taken out of the wallet. -/
def fuelInputs (reference : Option OutputReference) (steppeds : SteppedUtxos hash)
    (opens : List Open) (fuel : Utxos) : Except FundError (List OutputReference) :=
  if !steppeds.inputs.isEmpty && reference.isNone then .error (.tx .missingReference)
  else (Fuel.select fuel (fuelAmount (gainOf steppeds opens))).mapError .fuel

/-- The transaction of a batch, with its fuel. -/
def fundedTx (crypto : Crypto) (params : ProtocolParameters) (reference : Option OutputReference)
    (steppeds : SteppedUtxos hash) (opens : List Open) (fuel : Utxos) (change : Option Change) :
    Except FundError TransactionBody := do
  let inputs ← fuelInputs reference steppeds opens fuel
  (tx crypto params reference steppeds opens inputs change).mapError .tx

/-! ### Totals -/

namespace SteppedUtxos

/-- The lovelace of the channels that are spent. -/
def lovelace (self : SteppedUtxos hash) : ℕ :=
  (self.items.map fun x => x.utxo.output.lovelace.toNat).sum

/-- What the channels are short of their buffers. -/
def short (self : SteppedUtxos hash) : ℕ :=
  (self.items.map fun x => 2_000_000 - x.utxo.output.lovelace.toNat).sum

/-- The lovelace of the channels that continue. -/
def contLovelace (self : SteppedUtxos hash) : ℕ :=
  (self.outputs.map fun output => output.lovelace.toNat).sum

end SteppedUtxos

/-- The lovelace of the channels that are opened. -/
def openLovelace (opens : List Open) : ℕ :=
  (opens.map fun x => x.data.bufferedAmount.toNat).sum

section Totals

variable {steppeds : SteppedUtxos hash} {opens : List Open}

/-- With its buffer a channel has what its output has, and what that is short of the buffer. -/
lemma SteppedUtxo.toNat_bufferedAmount (self : SteppedUtxo hash) :
    self.data.channel.bufferedAmount.toNat =
      self.utxo.output.lovelace.toNat + (2_000_000 - self.utxo.output.lovelace.toNat) := by
  have hread := self.read
  rw [Channel.tryFrom] at hread
  cases htry : Tx2.Channel.tryFrom hash self.utxo.output with
  | error e => rw [htry] at hread; cases hread
  | ok channel =>
    obtain ⟨_, _, hreads⟩ := Tx2.Channel.reads_of_tryFrom htry
    rw [htry] at hread
    have hamount : self.data.channel.vars.amount = debufferAmount self.utxo.output.lovelace := by
      rw [← Except.ok.inj hread]
      exact hreads.amount
    have hbuffer : minAdaBuffer.toNat = 2_000_000 := rfl
    have hlt := self.utxo.output.lovelace.toNat_lt
    rw [Channel.bufferedAmount, hamount, UInt64.toNat_add, toNat_debufferAmount, hbuffer]
    omega

/-- What the channels that continue have. -/
lemma contLovelace_eq : steppeds.contLovelace = (steppeds.items.map fun x =>
    (x.data.contData.elim 0 Channel.bufferedAmount).toNat).sum := by
  rw [SteppedUtxos.contLovelace, SteppedUtxos.outputs]
  induction steppeds.items with
  | nil => rfl
  | cons x items ih =>
    rw [List.map_cons, List.sum_cons, ← ih, List.filterMap_cons, SteppedUtxo.contOutput]
    cases x.data.contData with
    | none => exact (Nat.zero_add _).symm
    | some channel => rfl

/-- The gain of the channels: what they have, and what they are short of, less what continues. -/
lemma toInt_gain : steppeds.gain.toInt =
    ((steppeds.lovelace + steppeds.short : ℤ) - steppeds.contLovelace).bmod (2 ^ 64) := by
  have hsum : ∀ l : List (SteppedUtxo hash), (l.map fun x =>
      (x.data.channel.bufferedAmount.toNat : ℤ) -
        (x.data.contData.elim 0 Channel.bufferedAmount).toNat).sum =
      ((l.map fun x => x.utxo.output.lovelace.toNat).sum : ℕ) +
        ((l.map fun x => 2_000_000 - x.utxo.output.lovelace.toNat).sum : ℕ) -
        ((l.map fun x => (x.data.contData.elim 0 Channel.bufferedAmount).toNat).sum : ℕ) := by
    intro l
    induction l with
    | nil => rfl
    | cons x l ih =>
      simp only [List.map_cons, List.sum_cons]
      rw [ih, x.toNat_bufferedAmount]
      push_cast
      ring
  have hgain := Signed.toInt_sum_sub (fun x : SteppedUtxo hash => x.data.channel.bufferedAmount)
    (fun x => x.data.contData.elim 0 Channel.bufferedAmount) steppeds.items
  rwa [hsum, ← contLovelace_eq] at hgain

/-- The gain in whole: what is spent, and what that is short of, less what is made. -/
lemma toInt_gainOf : (gainOf steppeds opens).toInt =
    ((steppeds.lovelace + steppeds.short : ℤ) -
      (steppeds.contLovelace + openLovelace opens)).bmod (2 ^ 64) := by
  have hopens : (Word.sum (opens.map fun x => x.data.bufferedAmount)).toInt64.toInt =
      (openLovelace opens : ℤ).bmod (2 ^ 64) := by
    rw [Signed.toInt_toInt64, Word.toNat_sum_map, openLovelace]
    push_cast
    exact Int.emod_bmod _ _
  rw [gainOf, Int64.toInt_sub, toInt_gain, hopens, Int.sub_bmod_bmod, Int.bmod_sub_bmod]
  ring_nf

/-- What is asked of the wallet: the fee, and what is lost. -/
lemma toNat_fuelAmount (hspent : steppeds.lovelace + steppeds.short < 2 ^ 63)
    (hmade : steppeds.contLovelace + openLovelace opens < 2 ^ 63) :
    (fuelAmount (gainOf steppeds opens)).toNat = 3_000_000 +
      (steppeds.contLovelace + openLovelace opens - (steppeds.lovelace + steppeds.short)) := by
  have hfee : feeBuffer.toNat = 3_000_000 := rfl
  have hgain := @toInt_gainOf hash steppeds opens
  rw [Int.bmod_eq_of_le (by omega) (by omega)] at hgain
  rw [fuelAmount, Word.toNat_max, Signed.toNat_satSub, hgain, hfee]
  omega

end Totals

/-! ### What is taken out of the wallet -/

/-- A batch is funded where the wallet has what its outputs need beyond what it spends, and the fee.
What is taken out is the fewest inputs that do, and with them the inputs have what the outputs do,
and the fee, but for what the channels are short of. -/
structure Funded (reference : Option OutputReference) (steppeds : SteppedUtxos hash)
    (opens : List Open) (fuel : Utxos) : Prop where
  isOk_iff : (∃ inputs, fuelInputs reference steppeds opens fuel = .ok inputs) ↔
    (steppeds.items = [] ∨ reference.isSome = true) ∧
      steppeds.contLovelace + openLovelace opens - (steppeds.lovelace + steppeds.short) +
        3_000_000 ≤ Fuel.heldInAll fuel
  fewest : ∀ inputs, fuelInputs reference steppeds opens fuel = .ok inputs →
    Fuel.Fewest fuel (fuelAmount (gainOf steppeds opens)) inputs
  covers : ∀ inputs, fuelInputs reference steppeds opens fuel = .ok inputs →
    steppeds.contLovelace + openLovelace opens + 3_000_000 ≤
      steppeds.lovelace + steppeds.short + Fuel.heldBy fuel inputs

lemma fuelInputs_eq_ok_iff {reference : Option OutputReference} {steppeds : SteppedUtxos hash}
    {opens : List Open} {fuel : Utxos} {inputs : List OutputReference} :
    fuelInputs reference steppeds opens fuel = .ok inputs ↔
      (steppeds.items = [] ∨ reference.isSome = true) ∧
        Fuel.select fuel (fuelAmount (gainOf steppeds opens)) = .ok inputs := by
  have hempty : steppeds.inputs.isEmpty = true ↔ steppeds.items = [] := by
    simp [SteppedUtxos.inputs, batchInputs]
  rw [fuelInputs, ← hempty]
  split_ifs with hreference
  · simp only [Bool.and_eq_true, Bool.not_eq_true', Option.isNone_iff_eq_none] at hreference
    simp [hreference]
  · have hallowed : steppeds.inputs.isEmpty = true ∨ reference.isSome = true := by
      cases h : steppeds.inputs.isEmpty <;> cases reference <;> simp_all
    rw [Result.mapError_eq_ok, and_iff_right hallowed]

/-- **Funding.**  Where the totals fit in a signed word, a batch is funded as it is to be. -/
theorem funded_batch {steppeds : SteppedUtxos hash} {opens : List Open}
    (hspent : steppeds.lovelace + steppeds.short < 2 ^ 63)
    (hmade : steppeds.contLovelace + openLovelace opens < 2 ^ 63)
    (reference : Option OutputReference) (fuel : Utxos) :
    Funded reference steppeds opens fuel := by
  have hamount := toNat_fuelAmount hspent hmade
  refine ⟨?_, fun inputs h => ?_, fun inputs h => ?_⟩
  · simp only [fuelInputs_eq_ok_iff, exists_and_left, Fuel.select_isOk_iff, hamount]
    rw [Nat.add_comm 3_000_000]
  · exact Fuel.fewest_of_select (fuelInputs_eq_ok_iff.mp h).2
  · have hcovers := (Fuel.fewest_of_select (fuelInputs_eq_ok_iff.mp h).2).covers.enough
    rw [hamount] at hcovers
    omega

namespace Sample

/-- A channel of five ada to which five more are added. -/
def added : SteppedUtxos Tx2.Sample.hash where
  items := [⟨⟨⟨List.replicate 32 0, 0⟩,
      Tx2.Sample.output 5_000_000 (.constr 0 [.int 0, .list []])⟩,
    ⟨⟨Tx2.Sample.constants, ⟨3_000_000, .opened 0 []⟩⟩, .cont .add ⟨8_000_000, .opened 0 []⟩,
      ⟨none, none⟩⟩, rfl⟩]
  sorted := List.pairwise_singleton _ _

/-- The five ada, and the fee. -/
def purse : Utxos := (∅ : Utxos).insert ⟨List.replicate 32 0, 1⟩
  ⟨⟨.verificationKey (List.replicate 28 0), none⟩, 8_000_000, [], .noDatum, none⟩

end Sample

/-- Eight ada are enough to add five. -/
theorem funded_batch_of_added : ∃ inputs,
    fuelInputs (some ⟨List.replicate 32 0, 2⟩) Sample.added [] Sample.purse = .ok inputs :=
  (funded_batch (by decide +kernel) (by decide +kernel) _ _).isOk_iff.mpr
    ⟨Or.inr rfl, by decide +kernel⟩

end Konduit.Tx
