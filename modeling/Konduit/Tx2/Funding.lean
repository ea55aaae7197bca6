import Mathlib.Tactic.Ring
import Konduit.Lib.Signed
import Konduit.Tx2.Fuel
import Konduit.Tx2.StagedTx

/-!
# What a stage is funded with

What the outputs of a stage need beyond what is spent is taken out of a wallet, with a buffer for
the fee.  A stage is funded just when the wallet has as much, from distinct inputs none of which is
superfluous (`funded`); and its gain is what it spends beyond the outputs that continue, less the
buffers that are freed.
-/

open Lib

namespace Konduit.Tx2

open Data Tx Cardano Cardano.Value
open Kernel (OutputReference)

/-- What is left for the fee. -/
def feeBuffer : UInt64 := 4_000_000

/-- The value of an output, as the builder has it. -/
def valueOf (output : Kernel.Output) : Value UInt64 :=
  (Value.new output.lovelace).withAssets <| output.assets.filterMap fun x =>
    (BytesN.ofBytes 28 x.1).map fun p => (p, x.2.map fun y => (y.1, .ofInt y.2))

/-- What of an amount continues. -/
def Will.contAmount : Will → UInt64
  | cont output _ => output.amount
  | eol _ => 0

namespace StagedTx

/-- Why a stage is not built. -/
inductive FundError where
  | build (e : BuildError)
  | fuel (e : Fuel.SelectError)
  | balancing

variable {crypto : Crypto}

/-- What the channels give, less what continues. -/
def gain (self : StagedTx crypto) : Int64 :=
  Signed.sum <| self.wills.toList.filterMap fun x =>
    self.channels[x.1]?.map fun channel => channel.amount.toInt64 - x.2.contAmount.toInt64

/-- What the channels that are spent hold. -/
def spentValue (self : StagedTx crypto) (utxos : OutputReference → Option Kernel.Output) :
    Except FundError (Value UInt64) :=
  (self.wills.toList.map Prod.fst).foldlM (fun spent input =>
    match utxos input with
    | none => .error (.build .missingUtxo)
    | some output => .ok (spent.add (valueOf output))) (Value.new 0)

/-- What the outputs are to hold. -/
def producedValue (self : StagedTx crypto) (hash : Kernel.ScriptHash) : Value UInt64 :=
  (self.outputs hash).foldl (fun acc output => acc.add (valueOf output)) (Value.new 0)

/-- What is asked of the wallet. -/
def fuelTarget (produced spent : Value UInt64) : Value UInt64 :=
  let target := Fuel.saturatingSubValue produced spent
  { target with lovelace := target.lovelace + feeBuffer }

lemma assets_fuelTarget (produced spent : Value UInt64) :
    (fuelTarget produced spent).assets = (Fuel.saturatingSubValue produced spent).assets := rfl

lemma lovelace_fuelTarget (produced spent : Value UInt64) :
    (fuelTarget produced spent).lovelace =
      (Fuel.saturatingSubValue produced spent).lovelace + feeBuffer := rfl

/-- The inputs that are taken out of the wallet. -/
def fuelInputs (self : StagedTx crypto) (hash : Kernel.ScriptHash)
    (utxos : OutputReference → Option Kernel.Output) (reference : Option OutputReference)
    (fuel : OrdMap OutputReference (Value UInt64)) : Except FundError (List OutputReference) :=
  if !self.wills.isEmpty && reference.isNone then .error (.build .missingReference)
  else do
    let spent ← self.spentValue utxos
    (Fuel.select fuel (fuelTarget (self.producedValue hash) spent)).mapError .fuel

/-! ### Totals -/

/-- The lovelace of what is spent. -/
def spentLovelace (self : StagedTx crypto) (utxos : OutputReference → Option Kernel.Output) : ℕ :=
  ((self.spent utxos).map fun x => x.input.output.lovelace.toNat).sum

/-- The lovelace of what is made. -/
def producedLovelace (self : StagedTx crypto) (hash : Kernel.ScriptHash) : ℕ :=
  ((self.outputs hash).map fun output => output.lovelace.toNat).sum

/-- The lovelace of the channels that are opened. -/
def openedLovelace (self : StagedTx crypto) : ℕ :=
  (self.opens.map fun channel => channel.bufferedAmount.toNat).sum

/-- What of the buffers of the channels that are spent does not go into those that continue. -/
def freed (self : StagedTx crypto) (utxos : OutputReference → Option Kernel.Output) : ℤ :=
  ((self.spent utxos).map fun x =>
    ((min x.input.output.lovelace.toNat 2_000_000 : ℕ) : ℤ) -
      (x.will.continuing.elim 0 fun _ => 2_000_000 : ℕ)).sum

section Totals

variable {self : StagedTx crypto} {hash : Kernel.ScriptHash}
  {utxos : OutputReference → Option Kernel.Output}

/-- What is summed up over the entries that there are. -/
lemma sum_map_filterMap {α β : Type} (f : α → Option β) (g : β → ℕ) (l : List α) :
    ((l.filterMap f).map g).sum = (l.map fun a => (f a).elim 0 g).sum := by
  induction l with
  | nil => rfl
  | cons a l ih =>
    rw [List.map_cons, List.sum_cons, ← ih]
    cases h : f a with
    | none => rw [List.filterMap_cons_none h, Option.elim_none, Nat.zero_add]
    | some b => rw [List.filterMap_cons_some h, List.map_cons, List.sum_cons, Option.elim_some]

/-- What continues, and what is opened. -/
lemma producedLovelace_eq (hreads : self.Reads hash utxos) :
    self.producedLovelace hash =
      ((self.spent utxos).map fun x => x.will.continuing.elim 0 fun channel =>
        channel.bufferedAmount.toNat).sum + self.openedLovelace := by
  rw [producedLovelace, outputs, ← map_spent hreads, List.map_append, List.sum_append,
    List.filterMap_map, sum_map_filterMap, List.map_map, openedLovelace]
  refine congrArg (· + _) (congrArg List.sum (List.map_congr_left fun x _ => ?_))
  simp only [Function.comp_apply, Option.elim_map]
  rfl

/-- The gain, from what is spent. -/
lemma gain_eq (hreads : self.Reads hash utxos) :
    self.gain = Signed.sum ((self.spent utxos).map fun x =>
      x.channel.amount.toInt64 - x.will.contAmount.toInt64) := by
  rw [gain, ← map_spent hreads, List.filterMap_map, ← List.filterMap_eq_map]
  refine congrArg Signed.sum (List.filterMap_congr fun x hx => ?_)
  obtain ⟨-, -, hchannel⟩ := mem_spent.mp hx
  simp only [Function.comp_apply, hchannel, Option.map_some]

/-- What a channel gives, less what continues, is what its output has beyond the output that is
made, less what is freed of its buffer. -/
lemma Spent.gain_modEq (hreads : self.Reads hash utxos) {x : Spent} (hx : x ∈ self.spent utxos) :
    (x.channel.amount.toNat : ℤ) - x.will.contAmount.toNat ≡
      x.input.output.lovelace.toNat -
        (x.will.continuing.elim 0 fun channel => channel.bufferedAmount.toNat : ℕ) -
        (((min x.input.output.lovelace.toNat 2_000_000 : ℕ) : ℤ) -
          (x.will.continuing.elim 0 fun _ => 2_000_000 : ℕ)) [ZMOD (2 ^ 64 : ℕ)] := by
  obtain ⟨constants, stage, hread⟩ := Spent.reads hreads hx
  have hbuffer : minAdaBuffer.toNat = 2_000_000 := rfl
  have hamount : (x.channel.amount.toNat : ℤ) =
      x.input.output.lovelace.toNat - (min x.input.output.lovelace.toNat 2_000_000 : ℕ) := by
    rw [hread.amount, debufferAmount, Word.toNat_satSub, hbuffer]
    omega
  cases hwill : x.will with
  | cont output step =>
    have houtput : (output.bufferedAmount.toNat : ℤ) ≡ output.amount.toNat + 2_000_000
        [ZMOD (2 ^ 64 : ℕ)] := by
      rw [Channel.bufferedAmount, UInt64.toNat_add, hbuffer]
      push_cast
      exact Int.mod_modEq _ _
    rw [Will.contAmount, Will.continuing, Option.elim_some, Option.elim_some, hamount]
    calc
      _ = (x.input.output.lovelace.toNat : ℤ) - (output.amount.toNat + 2_000_000) -
          ((min x.input.output.lovelace.toNat 2_000_000 : ℕ) - (2_000_000 : ℕ)) := by
        push_cast
        ring
      _ ≡ _ [ZMOD (2 ^ 64 : ℕ)] := (houtput.symm.sub_left _).sub_right _
  | eol step =>
    rw [Will.contAmount, Will.continuing, Option.elim_none, Option.elim_none, hamount,
      UInt64.toNat_zero]
    simp only [Nat.cast_zero, sub_zero, Int.ModEq.refl]

/-- The gain is what is spent beyond what continues, less the buffers that are freed. -/
lemma toInt_gain (hreads : self.Reads hash utxos) :
    self.gain.toInt =
      ((self.spentLovelace utxos + self.openedLovelace : ℤ) - self.producedLovelace hash -
        self.freed utxos).bmod (2 ^ 64) := by
  rw [gain_eq hreads, Signed.toInt_sum_sub]
  have hgain := fun x hx => @Spent.gain_modEq _ self hash utxos hreads x hx
  rw [producedLovelace_eq hreads, spentLovelace, freed]
  generalize self.spent utxos = xs at hgain ⊢
  have hsum : ((xs.map fun x => (x.channel.amount.toNat : ℤ) - x.will.contAmount.toNat).sum) ≡
      (((xs.map fun x => x.input.output.lovelace.toNat).sum : ℕ) : ℤ) -
        ((xs.map fun x => x.will.continuing.elim 0 fun channel =>
          channel.bufferedAmount.toNat).sum : ℕ) -
        (xs.map fun x => ((min x.input.output.lovelace.toNat 2_000_000 : ℕ) : ℤ) -
          (x.will.continuing.elim 0 fun _ => 2_000_000 : ℕ)).sum [ZMOD (2 ^ 64 : ℕ)] := by
    induction xs with
    | nil => rfl
    | cons x xs ih =>
      have hadd := (hgain x List.mem_cons_self).add (ih fun y hy =>
        hgain y (List.mem_cons_of_mem _ hy))
      simp only [List.map_cons, List.sum_cons]
      calc
        _ ≡ _ [ZMOD (2 ^ 64 : ℕ)] := hadd
        _ = _ := by
          push_cast
          ring
  rw [Signed.bmod_eq_of_modEq hsum]
  push_cast
  ring_nf

/-! ### What is asked of the wallet -/

/-- What is added up holds the total of each unit, up to wrapping. -/
lemma quantityOf_foldl_add {α : Type} (f : α → Value UInt64) (l : List α) (v : Value UInt64)
    (unit : Value.Unit) :
    (quantityOf (l.foldl (fun acc a => acc.add (f a)) v) unit).toNat =
      ((quantityOf v unit).toNat + totalOf f l unit) % 2 ^ 64 := by
  induction l generalizing v with
  | nil => exact (Nat.mod_eq_of_lt (UInt64.toNat_lt _)).symm
  | cons a l ih =>
    rw [List.foldl_cons, ih, quantityOf_add, UInt64.toNat_add, Nat.mod_add_mod, totalOf_cons,
      Nat.add_assoc]

lemma normal_foldl_add {α : Type} (f : α → Value UInt64) (l : List α) {v : Value UInt64}
    (hv : v.assets.Normal) : (l.foldl (fun acc a => acc.add (f a)) v).assets.Normal := by
  induction l generalizing v with
  | nil => exact hv
  | cons a l ih => exact ih (normal_add v (f a))

/-- Everything that is to be spent is on the ledger. -/
lemma spentValue_eq (hreads : self.Reads hash utxos) :
    self.spentValue utxos = .ok ((self.spent utxos).foldl
      (fun acc x => acc.add (valueOf x.input.output)) (Value.new 0)) := by
  have hall : ∀ xs : List Spent, (∀ x ∈ xs, utxos x.input.outputReference = some x.input.output) →
      ∀ v : Value UInt64, xs.foldlM (fun spent x =>
          match utxos x.input.outputReference with
          | none => .error (FundError.build .missingUtxo)
          | some output => .ok (spent.add (valueOf output))) v =
        Except.ok (xs.foldl (fun acc x => acc.add (valueOf x.input.output)) v) := by
    intro xs hxs
    induction xs with
    | nil => exact fun v => rfl
    | cons x xs ih =>
      intro v
      rw [List.foldlM_cons, hxs x List.mem_cons_self, List.foldl_cons,
        ← ih fun y hy => hxs y (List.mem_cons_of_mem _ hy)]
      rfl
  rw [spentValue, ← map_spent hreads, List.map_map, List.foldlM_map]
  exact hall _ (fun x hx => (mem_spent.mp hx).2.1) _

lemma valueOf_channelOutput (channel : Channel) :
    valueOf (channelOutput hash channel) = Value.new channel.bufferedAmount := by
  rw [valueOf, channelOutput, Tx.channelOutput]
  rfl

/-- No assets are made. -/
lemma totalOf_outputs_asset (p : BytesN 28) (n : Bytes) :
    totalOf valueOf (self.outputs hash) (.asset p n) = 0 := by
  refine List.sum_eq_zero fun q hq => ?_
  obtain ⟨output, houtput, rfl⟩ := List.mem_map.mp hq
  have hchannel : ∃ channel, channelOutput hash channel = output := by
    rcases List.mem_append.mp houtput with h | h
    · obtain ⟨x, -, hx⟩ := List.mem_filterMap.mp h
      obtain ⟨channel, -, rfl⟩ := Option.map_eq_some_iff.mp hx
      exact ⟨channel, rfl⟩
    · obtain ⟨channel, -, rfl⟩ := List.mem_map.mp h
      exact ⟨channel, rfl⟩
  obtain ⟨channel, rfl⟩ := hchannel
  rw [valueOf_channelOutput, quantityOf_new_asset, UInt64.toNat_zero]

lemma totalOf_outputs_lovelace :
    totalOf valueOf (self.outputs hash) .lovelace = self.producedLovelace hash := by
  simp only [totalOf, producedLovelace, quantityOf, valueOf, withAssets, Value.new]

lemma totalOf_spent : totalOf (fun x : Spent => valueOf x.input.output) (self.spent utxos)
    .lovelace = self.spentLovelace utxos := by
  simp only [totalOf, spentLovelace, quantityOf, valueOf, withAssets, Value.new]

/-- What is asked of the wallet when this is spent. -/
def asked (self : StagedTx crypto) (hash : Kernel.ScriptHash)
    (utxos : OutputReference → Option Kernel.Output) : Value UInt64 :=
  fuelTarget (self.producedValue hash) ((self.spent utxos).foldl
    (fun acc x => acc.add (valueOf x.input.output)) (Value.new 0))

lemma normal_producedValue : (self.producedValue hash).assets.Normal :=
  normal_foldl_add valueOf _ Assets.Normal.empty

lemma normal_asked : (self.asked hash utxos).assets.Normal := by
  rw [asked, assets_fuelTarget]
  exact Fuel.normal_saturatingSubValue normal_producedValue _

/-- No assets are asked for. -/
lemma quantity_asked (p : BytesN 28) (n : Bytes) :
    (self.asked hash utxos).assets.quantity p n = 0 := by
  have hmade : quantityOf (self.producedValue hash) (.asset p n) = 0 := by
    rw [← UInt64.toNat_inj, producedValue, quantityOf_foldl_add, totalOf_outputs_asset,
      quantityOf_new_asset, UInt64.toNat_zero, Nat.add_zero, Nat.zero_mod]
  have hsub := Fuel.quantityOf_saturatingSubValue (@normal_producedValue _ self hash)
    ((self.spent utxos).foldl (fun acc x => acc.add (valueOf x.input.output)) (Value.new 0))
    (.asset p n)
  rw [hmade, Word.zero_satSub] at hsub
  rw [asked, assets_fuelTarget]
  exact hsub

/-- The lovelace that is asked for. -/
lemma toNat_asked (hspent : self.spentLovelace utxos < 2 ^ 64)
    (hmade : self.producedLovelace hash + 4_000_000 < 2 ^ 64) :
    (quantityOf (self.asked hash utxos) .lovelace).toNat =
      self.producedLovelace hash - self.spentLovelace utxos + 4_000_000 := by
  have hproduced : (quantityOf (self.producedValue hash) .lovelace).toNat =
      self.producedLovelace hash := by
    rw [producedValue, quantityOf_foldl_add, totalOf_outputs_lovelace, quantityOf_new_lovelace,
      UInt64.toNat_zero, Nat.zero_add]
    exact Nat.mod_eq_of_lt (by omega)
  have hsum := quantityOf_foldl_add (fun x : Spent => valueOf x.input.output) (self.spent utxos)
    (Value.new 0) .lovelace
  rw [totalOf_spent, quantityOf_new_lovelace, UInt64.toNat_zero, Nat.zero_add,
    Nat.mod_eq_of_lt hspent] at hsum
  have hsub := Fuel.quantityOf_saturatingSubValue (@normal_producedValue _ self hash)
    ((self.spent utxos).foldl (fun acc x => acc.add (valueOf x.input.output)) (Value.new 0))
    .lovelace
  rw [← UInt64.toNat_inj, Word.toNat_satSub, hproduced, hsum, quantityOf] at hsub
  have hfee : feeBuffer.toNat = 4_000_000 := rfl
  have hfits : self.producedLovelace hash - self.spentLovelace utxos + 4_000_000 < 2 ^ 64 := by
    omega
  rw [asked, quantityOf, lovelace_fuelTarget, UInt64.toNat_add, hsub, hfee, Nat.mod_eq_of_lt hfits]

lemma fuelInputs_eq_ok_iff (hreads : self.Reads hash utxos) {reference : Option OutputReference}
    {fuel : OrdMap OutputReference (Value UInt64)} {inputs : List OutputReference} :
    self.fuelInputs hash utxos reference fuel = .ok inputs ↔
      (self.wills.isEmpty = true ∨ reference.isSome = true) ∧
        Fuel.select fuel (self.asked hash utxos) = .ok inputs := by
  rw [fuelInputs, spentValue_eq hreads]
  split_ifs with hreference
  · simp only [Bool.and_eq_true, Bool.not_eq_true', Option.isNone_iff_eq_none] at hreference
    simp [hreference]
  · have hallowed : self.wills.isEmpty = true ∨ reference.isSome = true := by
      cases hempty : self.wills.isEmpty <;> cases reference <;> simp_all
    rw [Result.bind_eq_ok]
    constructor
    · rintro ⟨spent, hspent, hselect⟩
      obtain rfl := Except.ok.inj hspent
      exact ⟨hallowed, Result.mapError_eq_ok.mp hselect⟩
    · rintro ⟨-, hselect⟩
      exact ⟨_, rfl, Result.mapError_eq_ok.mpr hselect⟩

end Totals

/-! ### What is taken out of the wallet -/

/-- A stage is funded where the wallet has what its outputs need beyond what it spends, and the fee.
What is taken out is distinct, suffices, and does not without any one of it.  The gain is what is
spent beyond what continues, less the buffers that are freed. -/
structure Funded (staged : StagedTx crypto) (hash : Kernel.ScriptHash)
    (utxos : OutputReference → Option Kernel.Output) (reference : Option OutputReference)
    (fuel : OrdMap OutputReference (Value UInt64)) : Prop where
  isOk_iff : (∃ inputs, staged.fuelInputs hash utxos reference fuel = .ok inputs) ↔
    (staged.wills.isEmpty = true ∨ reference.isSome = true) ∧
      staged.producedLovelace hash - staged.spentLovelace utxos + 4_000_000 ≤
        Fuel.walletTotal fuel .lovelace
  nodup : ∀ inputs, staged.fuelInputs hash utxos reference fuel = .ok inputs → inputs.Nodup
  mem : ∀ inputs, staged.fuelInputs hash utxos reference fuel = .ok inputs →
    ∀ input ∈ inputs, input ∈ fuel
  covers : ∀ inputs, staged.fuelInputs hash utxos reference fuel = .ok inputs →
    staged.producedLovelace hash + 4_000_000 ≤
      staged.spentLovelace utxos + Fuel.inputTotal fuel inputs .lovelace
  needed : ∀ inputs, staged.fuelInputs hash utxos reference fuel = .ok inputs →
    ∀ before input after, inputs = before ++ input :: after →
      Fuel.inputTotal fuel (before ++ after) .lovelace <
        staged.producedLovelace hash - staged.spentLovelace utxos + 4_000_000
  gain : staged.gain.toInt =
    ((staged.spentLovelace utxos + staged.openedLovelace : ℤ) - staged.producedLovelace hash -
      staged.freed utxos).bmod (2 ^ 64)

/-- **Funding.**  Where the totals fit in a word, a stage is funded as it is to be. -/
theorem funded {self : StagedTx crypto} {hash : Kernel.ScriptHash}
    {utxos : OutputReference → Option Kernel.Output} (hreads : self.Reads hash utxos)
    (hspent : self.spentLovelace utxos < 2 ^ 64)
    (hmade : self.producedLovelace hash + 4_000_000 < 2 ^ 64)
    (reference : Option OutputReference) (fuel : OrdMap OutputReference (Value UInt64)) :
    self.Funded hash utxos reference fuel := by
  have hexact := @Fuel.exactSelect_of_lovelace fuel _ (@normal_asked _ self hash utxos)
    quantity_asked
  have hasked := toNat_asked hspent hmade
  -- no assets are asked for, so that only the lovelace is to be covered
  have hunits : ∀ total : Value.Unit → ℕ,
      (∀ unit, (quantityOf (self.asked hash utxos) unit).toNat ≤ total unit) ↔
        self.producedLovelace hash - self.spentLovelace utxos + 4_000_000 ≤ total .lovelace := by
    intro total
    rw [← hasked]
    refine ⟨fun h => h .lovelace, fun h unit => ?_⟩
    cases unit with
    | lovelace => exact h
    | asset p n =>
      rw [quantityOf, quantity_asked]
      exact Nat.zero_le _
  refine ⟨?_, fun inputs h => ?_, fun inputs h => ?_, fun inputs h => ?_,
    fun inputs h before input after hsplit => ?_, toInt_gain hreads⟩
  · simp only [fuelInputs_eq_ok_iff hreads, exists_and_left, hexact.isOk_iff, hunits]
  · exact hexact.nodup _ ((fuelInputs_eq_ok_iff hreads).mp h).2
  · exact hexact.mem _ ((fuelInputs_eq_ok_iff hreads).mp h).2
  · have hcovers := (hunits _).mp (hexact.covers _ ((fuelInputs_eq_ok_iff hreads).mp h).2)
    omega
  · obtain ⟨unit, hlt⟩ := hexact.minimal _ ((fuelInputs_eq_ok_iff hreads).mp h).2 _ _ _ hsplit
    cases unit with
    | lovelace => rwa [hasked] at hlt
    | asset p n =>
      rw [quantityOf, quantity_asked] at hlt
      exact absurd hlt (Nat.not_lt_zero _)

end StagedTx

/-- A wallet with 9 ada. -/
def Sample.fuel : OrdMap OutputReference (Value UInt64) :=
  Std.ExtTreeMap.ofList [(fuelRef, Value.new 9_000_000)] compare

/-- The sample is funded with the wallet's output. -/
theorem StagedTx.funded_sample :
    Sample.staged.Funded Sample.hash (Sample.batchUtxos none) (some Sample.fuelRef) Sample.fuel :=
  StagedTx.funded (Sample.reads_staged rfl) (by decide +kernel) (by decide +kernel) _ _

end Konduit.Tx2
