import Konduit.Tx2.Staging

/-!
# Whether a stage settles

Of what a stage is built with, the ledger can show the transaction: no output is spent twice.  Main
accepts it just when each step is accepted on its own, no channel that is to continue is found at
an address with a pointer, and their constants are their own (`StagedTx.settles_of_buildFrom`).
-/

open Lib

namespace Konduit.Tx2

open Data Tx Cardano Cardano.Value
open Kernel (OutputReference Verified)

namespace StagedTx

variable {crypto : Crypto} {self : StagedTx crypto} {hash : Kernel.ScriptHash}
  {utxos : OutputReference → Option Kernel.Output}

/-! ### What is built out of a wallet -/

/-- The transaction can be shown on the ledger, and main accepts it just when each step is accepted
on its own, between the times of the stage, and what is to continue is not at a pointer and has
constants of its own. -/
structure Settles (self : StagedTx crypto) (args : BuildArgs)
    (ledger : OutputReference → Option Kernel.Output) (body : TransactionBody) : Prop where
  exists_shown : ∃ t redeemers, body.Shown ledger args.params.slotConfig t redeemers
  validates_iff : ∀ t redeemers, body.Shown ledger args.params.slotConfig t redeemers →
    (t.Validates crypto args.hash redeemers ↔
      self.Accepted args.hash ledger (self.interval.bounds args.params) ∧
        self.NoPointers ledger ∧ self.OwnConstants ledger)

section BuildFrom

variable {args : BuildArgs} {ledger : OutputReference → Option Kernel.Output}
  {body : TransactionBody} {self' : StagedTx crypto}

lemma buildFrom_eq_ok (h : self.buildFrom args = .ok (body, self')) :
    ∃ fuel change, self.fuelInputs args.hash args.utxos args.reference args.fuel = .ok fuel ∧
      self.build args.hash args.utxos args.params args.reference fuel change =
        .ok (body, self') := by
  obtain ⟨fuel, hfuel, h⟩ := Result.bind_eq_ok.mp h
  split at h
  · cases h
  · exact ⟨fuel, _, hfuel, Result.mapError_eq_ok.mp h⟩

/-- The builder knows nothing of the outputs but that they are there. -/
lemma build_of_known {params : ProtocolParameters} {reference : Option OutputReference}
    {fuel : List OutputReference} {change : Option Change}
    (hknown : ∀ oref output, utxos oref = some output → ledger oref = some output)
    (h : self.build hash utxos params reference fuel change = .ok (body, self')) :
    self.build hash ledger params reference fuel change = .ok (body, self') := by
  rw [build] at h ⊢
  split_ifs at h with hreference hutxos
  rw [if_neg hreference, if_neg fun hledger => hutxos ?_]
  · exact h
  · obtain ⟨x, hx, hnone⟩ := List.any_eq_true.mp hledger
    refine List.any_eq_true.mpr ⟨x, hx, ?_⟩
    cases hget : utxos x.1 with
    | none => rfl
    | some output => simp [hknown _ _ hget] at hnone

/-- Where each channel is found again, so is all that is spent. -/
lemma buildFrom_ne_missingUtxo (hreads : self.Reads args.hash args.utxos) :
    self.buildFrom args ≠ .error (.build .missingUtxo) := by
  have hfound : ¬self.wills.toList.any fun x => (args.utxos x.1).isNone := by
    rintro hany
    obtain ⟨x, hx, hnone⟩ := List.any_eq_true.mp hany
    obtain ⟨channel, -, hchannel, -⟩ :=
      self.resolved _ _ (Std.TreeMap.mem_toList_iff_getElem?_eq_some.mp hx)
    obtain ⟨output, houtput, -⟩ := hreads _ _ hchannel
    rw [houtput] at hnone
    cases hnone
  rintro heq
  rcases Result.bind_eq_error.mp heq with hselect | ⟨fuel, -, heq⟩
  · -- selecting finds what is spent
    rw [fuelInputs, spentValue_eq hreads] at hselect
    split_ifs at hselect
    · cases hselect
    · rcases Result.bind_eq_error.mp hselect with hspent | ⟨spent, -, hselect⟩
      · cases hspent
      · obtain ⟨e, -, he⟩ := Result.mapError_eq_error.mp hselect
        cases he
  · split at heq
    · cases heq
    · obtain ⟨e, herror, he⟩ := Result.mapError_eq_error.mp heq
      obtain rfl := FundError.build.inj he
      rw [build] at herror
      split_ifs at herror
      cases herror

/-- What is spent is distinct, and on the ledger. -/
lemma exists_shown_of_build {params : ProtocolParameters} {reference : Option OutputReference}
    {fuel : List OutputReference} {change : Option Change} {config : SlotConfig}
    (hbuild : self.build hash ledger params reference fuel change = .ok (body, self'))
    (hreads : self.Reads hash ledger) (hnodup : fuel.Nodup)
    (hfuel : ∀ oref ∈ fuel, ∃ output, ledger oref = some output ∧ output.atScript hash = false) :
    ∃ t redeemers, body.Shown ledger config t redeemers := by
  rw [build] at hbuild
  split_ifs at hbuild
  obtain ⟨rfl, -⟩ := Prod.mk.inj (Except.ok.inj hbuild)
  have hinputs : (withFuel self.inputs fuel).map Prod.fst =
      self.wills.toList.map Prod.fst ++ fuel := map_fst_withFuel _ _ _
  have hwill : ∀ oref ∈ self.wills.toList.map Prod.fst,
      ∃ output, ledger oref = some output ∧ output.atScript hash = true := by
    intro oref horef
    obtain ⟨⟨_, will⟩, hx, rfl⟩ := List.mem_map.mp horef
    obtain ⟨channel, -, hchannel, -⟩ :=
      self.resolved _ _ (Std.TreeMap.mem_toList_iff_getElem?_eq_some.mp hx)
    obtain ⟨output, houtput, hread⟩ := hreads _ _ hchannel
    obtain ⟨_, _, hread⟩ := Channel.reads_of_tryFrom hread
    exact ⟨output, houtput, by simp [Kernel.Output.atScript, hread.address]⟩
  refine TransactionBody.exists_shown ?_ fun x hx => ?_
  · rw [hinputs, List.nodup_append]
    refine ⟨?_, hnodup, ?_⟩
    · refine List.pairwise_map.mpr (Std.TreeMap.distinct_keys_toList.imp ?_)
      intro a b hne heq
      exact hne (Std.LawfulEqCmp.compare_eq_iff_eq.mpr heq)
    · -- fuel is not at the script
      rintro oref horef _ hin rfl
      obtain ⟨output, houtput, hat⟩ := hwill oref horef
      obtain ⟨output', houtput', hoff⟩ := hfuel oref hin
      obtain rfl := Option.some.inj (houtput.symm.trans houtput')
      rw [hat] at hoff
      cases hoff
  · have hmem : x.1 ∈ self.wills.toList.map Prod.fst ++ fuel := hinputs ▸ List.mem_map_of_mem hx
    rcases List.mem_append.mp hmem with horef | hin
    · obtain ⟨output, houtput, -⟩ := hwill _ horef
      exact ⟨output, houtput⟩
    · obtain ⟨output, houtput, -⟩ := hfuel _ hin
      exact ⟨output, houtput⟩

/-- What is taken of the fuel is distinct, and of the fuel. -/
lemma fuelInputs_sound {reference : Option OutputReference}
    {fuel : OrdMap OutputReference (Value UInt64)} {inputs : List OutputReference}
    (hreads : self.Reads hash utxos)
    (h : self.fuelInputs hash utxos reference fuel = .ok inputs) :
    inputs.Nodup ∧ ∀ input ∈ inputs, input ∈ fuel := by
  have hexact := @Fuel.exactSelect_of_lovelace fuel _ (@normal_asked _ self hash utxos)
    quantity_asked
  have hselect := ((fuelInputs_eq_ok_iff hreads).mp h).2
  exact ⟨hexact.nodup _ hselect, hexact.mem _ hselect⟩

/-- A stage that knows what is on the ledger, with fuel that is there and not at the script. -/
lemma settles_of_buildFrom (hbuild : self.buildFrom args = .ok (body, self'))
    (hreads : self.Reads args.hash args.utxos)
    (hknown : ∀ oref output, args.utxos oref = some output → ledger oref = some output)
    (hfuel : ∀ oref ∈ args.fuel, ∃ output, ledger oref = some output ∧
      output.atScript args.hash = false) :
    self.Settles args ledger body := by
  obtain ⟨fuel, change, hselect, hbuild⟩ := buildFrom_eq_ok hbuild
  obtain ⟨hnodup, hmem⟩ := fuelInputs_sound hreads hselect
  have hbuild := build_of_known hknown hbuild
  have hreads : self.Reads args.hash ledger := by
    intro input channel hchannel
    obtain ⟨output, houtput, hread⟩ := hreads input channel hchannel
    exact ⟨output, hknown _ _ houtput, hread⟩
  have hon := fun oref horef => hfuel oref (hmem oref horef)
  refine ⟨exists_shown_of_build hbuild hreads hnodup hon, fun t redeemers hshown => ?_⟩
  have hrange : t.validityRange = self.interval.bounds args.params := by
    rw [hshown.validityRange, Interval.bounds]
    rw [build] at hbuild
    split_ifs at hbuild
    obtain ⟨rfl, -⟩ := Prod.mk.inj (Except.ok.inj hbuild)
    rfl
  rw [(validates_iff hbuild hreads ?_ hshown).2, hrange]
  intro oref horef output houtput
  obtain ⟨output', houtput', hoff⟩ := hon oref horef
  obtain rfl := Option.some.inj (houtput'.symm.trans houtput)
  exact hoff

end BuildFrom

end StagedTx

end Konduit.Tx2
