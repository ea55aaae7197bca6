import Konduit.Tx2.Channel

/-!
# Channels off outputs

The first builder reads the same off an output as the second one, but for the delegate.
-/

open Lib

namespace Konduit.Tx.Channel

open Data

/-- Read a channel off an output. -/
def tryFrom (hash : Kernel.ScriptHash) (output : Kernel.Output) :
    Except Tx2.FromOutputError Channel :=
  (Tx2.Channel.tryFrom hash output).map fun channel =>
    ⟨channel.constants, channel.amount, channel.stage⟩

/-- The datum of the output is the channel's own. -/
abbrev Own (self : Channel) (output : Kernel.Output) : Prop :=
  OwnDatum output self.constants self.stage

variable {self : Channel} {hash ownHash : Kernel.ScriptHash} {output : Kernel.Output}

lemma tryFrom_eq_ok :
    tryFrom hash output = .ok self ↔
      ∃ channel, Tx2.Channel.tryFrom hash output = .ok channel ∧
        (⟨channel.constants, channel.amount, channel.stage⟩ : Channel) = self := by
  rw [tryFrom]
  cases Tx2.Channel.tryFrom hash output with
  | error e => simp [Except.map]
  | ok channel => simp [Except.map]

/-- Both builders read the same channel off an output. -/
lemma eq_of_tryFrom {channel : Tx2.Channel} (h : Tx2.Channel.tryFrom hash output = .ok channel)
    (h' : tryFrom hash output = .ok self) :
    self = ⟨channel.constants, channel.amount, channel.stage⟩ := by
  obtain ⟨channel', hread, rfl⟩ := tryFrom_eq_ok.mp h'
  obtain rfl := Except.ok.inj (h.symm.trans hread)
  rfl

/-- What a channel that was read is that the kernel finds there. -/
lemma reads_of_onChain {constants : Kernel.Constants} {stage : Kernel.Stage}
    (h : tryFrom hash output = .ok self)
    (honChain : output.channel = some ⟨ownHash, constants, stage⟩) :
    self.constants.toKernel = constants.asRead ∧ self.stage.toKernel = stage.asRead ∧
      self.stage.Canonical ∧ self.vars.amount = debufferAmount output.lovelace := by
  obtain ⟨channel, hread, rfl⟩ := tryFrom_eq_ok.mp h
  have hreads := Tx2.Channel.reads_of_onChain hread honChain
  exact ⟨hreads.constants, hreads.stage, hreads.canonical_stage, hreads.amount⟩

end Konduit.Tx.Channel
