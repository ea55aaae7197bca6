import Konduit.Data.OnChain

/-!
# Two readings of a datum

What is read off chain of a datum is what the kernel reads there, but for integers that are `-1`:
they are taken for `0` (`Datum.toKernel_of_ofData`).  Of a datum that was written off chain both
read the same.
-/

open Lib

/-! ### What the kernel's values are taken for -/

namespace Konduit.Kernel

/-- An integer of the kernel, as it is read off chain if it is read there. -/
def intAsRead (n : ℤ) : ℤ := if n = -1 then 0 else n

@[simp] lemma intAsRead_natCast (n : ℕ) : intAsRead n = n := if_neg (by omega)

/-- A used, as it is read off chain. -/
def Used.asRead (self : Used) : Used := ⟨intAsRead self.index, intAsRead self.amount⟩

/-- A pending, as it is read off chain. -/
def Pending.asRead (self : Pending) : Pending :=
  ⟨intAsRead self.amount, intAsRead self.timeout, self.lock⟩

/-- A stage, as it is read off chain. -/
def Stage.asRead : Stage → Stage
  | opened subbed useds => opened (intAsRead subbed) (useds.map Used.asRead)
  | closed subbed useds elapseAt =>
    closed (intAsRead subbed) (useds.map Used.asRead) (intAsRead elapseAt)
  | responded pendsAmount pends => responded (intAsRead pendsAmount) (pends.map Pending.asRead)

/-- Constants, as they are read off chain. -/
def Constants.asRead (self : Constants) : Constants :=
  { self with closePeriod := intAsRead self.closePeriod }

end Konduit.Kernel

namespace Konduit.Data

/-! Off chain there is no `-1`, so what is written there is taken for what it is. -/

@[simp] lemma Used.asRead_toKernel (self : Used) : self.toKernel.asRead = self.toKernel := by
  simp [toKernel, Kernel.Used.asRead]

@[simp] lemma Pending.asRead_toKernel (self : Pending) : self.toKernel.asRead = self.toKernel := by
  simp [toKernel, Kernel.Pending.asRead, Duration.toInt]

lemma Stage.asRead_toKernel (self : Stage) : self.toKernel.asRead = self.toKernel := by
  have hused : Kernel.Used.asRead ∘ Used.toKernel = Used.toKernel := funext Used.asRead_toKernel
  have hpending : Kernel.Pending.asRead ∘ Pending.toKernel = Pending.toKernel :=
    funext Pending.asRead_toKernel
  cases self <;> simp [toKernel, Kernel.Stage.asRead, hused, hpending, Duration.toInt]

lemma Constants.asRead_toKernel (self : Constants) : self.toKernel.asRead = self.toKernel := by
  simp [toKernel, Kernel.Constants.asRead, Duration.toInt]

/-! ### Integers and byte strings -/

/-- A word is read of an integer, and is what the integer is taken for. -/
lemma toNat_of_wordOfData {data : Plutus.Data} {w : UInt64} (h : wordOfData data = some w) :
    ∃ n big, data = .integer n big ∧ (w.toNat : ℤ) = Kernel.intAsRead n := by
  cases data with
  | integer n big =>
    refine ⟨n, big, rfl, ?_⟩
    rw [wordOfData, wordOfInteger_eq] at h
    have hw := toNat_of_u64OfInt h
    rw [Kernel.intAsRead, hw]
    split_ifs with hbig hone hone
    · rfl
    · exact absurd hbig.1 hone
    · -- an integer that is not a big one is not negative
      rw [if_neg hbig] at hw
      omega
    · rfl
  | _ => cases h

lemma bytes_of_bytesOfData {n : ℕ} {data : Plutus.Data} {b : BytesN n}
    (h : bytesOfData n data = some b) : data = .bytes b.1 := by
  cases data with
  | bytes x => rw [BytesN.val_of_ofBytes h]
  | _ => cases h

lemma bytes_of_tag {data : Plutus.Data} {tag : Tag} (h : Tag.ofData data = some tag) :
    data = .bytes tag.bytes := by
  cases data with
  | bytes x =>
    obtain rfl := Option.some.inj h
    rfl
  | _ => cases h

lemma Duration.toInt_of_ofData {data : Plutus.Data} {d : Duration} (h : ofData data = some d) :
    ∃ n big, data = .integer n big ∧ d.toInt = Kernel.intAsRead n ∧ d.Canonical := by
  obtain ⟨w, hw, rfl⟩ := Option.map_eq_some_iff.mp h
  obtain ⟨n, big, rfl, hn⟩ := toNat_of_wordOfData hw
  exact ⟨n, big, rfl, by simpa [toInt] using hn, canonical_fromMillis w⟩

/-! ### Lists and records -/

/-- When each item is read by both as the same, with a property, so is a list of them. -/
lemma mapM_of_mapM {α β γ : Type} {read : α → Option β} {read' : α → Option γ} {f : β → γ}
    {g : γ → γ} {P : β → Prop}
    (h : ∀ {a b}, read a = some b → (∃ c, read' a = some c ∧ f b = g c) ∧ P b) {as : List α}
    {bs : List β} (hread : as.mapM read = some bs) :
    (∃ cs, as.mapM read' = some cs ∧ bs.map f = cs.map g) ∧ ∀ b ∈ bs, P b := by
  induction as generalizing bs with
  | nil =>
    obtain rfl := Option.some.inj hread
    exact ⟨⟨[], rfl, rfl⟩, by simp⟩
  | cons a as ih =>
    simp only [List.mapM_cons, Option.bind_eq_bind, Option.bind_eq_some_iff, Option.pure_def,
      Option.some.injEq] at hread
    obtain ⟨b, hb, bs', hbs, rfl⟩ := hread
    obtain ⟨⟨c, hc, hbc⟩, hP⟩ := h hb
    obtain ⟨⟨cs, hcs, hmap⟩, hall⟩ := ih hbs
    refine ⟨⟨c :: cs, ?_, by rw [List.map_cons, List.map_cons, hbc, hmap]⟩,
      List.forall_mem_cons.mpr ⟨hP, hall⟩⟩
    rw [List.mapM_cons, hc, hcs]
    rfl

lemma list_of_ofData {α : Type} [OnChain α] {data : Plutus.Data} {xs : List α}
    (h : OnChain.ofData data = some xs) :
    ∃ items, data = .list items ∧ items.mapM OnChain.ofData = some xs := by
  cases data with
  | list items => exact ⟨items, rfl, h⟩
  | _ => cases h

lemma Used.toKernel_of_ofData {data : Plutus.Data} {self : Used} (h : ofData data = some self) :
    ∃ used, Kernel.Used.ofData data = some used ∧ self.toKernel = used.asRead := by
  unfold ofData at h
  split at h
  · simp only [Option.bind_eq_bind, Option.bind_eq_some_iff, Option.pure_def,
      Option.some.injEq] at h
    obtain ⟨index, hindex, amount, hamount, rfl⟩ := h
    obtain ⟨n, _, rfl, hn⟩ := toNat_of_wordOfData hindex
    obtain ⟨m, _, rfl, hm⟩ := toNat_of_wordOfData hamount
    exact ⟨⟨n, m⟩, rfl, by rw [toKernel, Kernel.Used.asRead, hn, hm]⟩
  · cases h

lemma Pending.toKernel_of_ofData {data : Plutus.Data} {self : Pending}
    (h : ofData data = some self) :
    (∃ pend, Kernel.Pending.ofData data = some pend ∧ self.toKernel = pend.asRead) ∧
      self.timeout.Canonical := by
  unfold ofData at h
  split at h
  · simp only [Option.bind_eq_bind, Option.bind_eq_some_iff, Option.pure_def,
      Option.some.injEq] at h
    obtain ⟨amount, hamount, timeout, htimeout, lock, hlock, rfl⟩ := h
    obtain ⟨n, _, rfl, hn⟩ := toNat_of_wordOfData hamount
    obtain ⟨m, _, rfl, hm, hcanonical⟩ := Duration.toInt_of_ofData htimeout
    obtain ⟨b, hb, rfl⟩ := Option.map_eq_some_iff.mp hlock
    obtain rfl := bytes_of_bytesOfData hb
    exact ⟨⟨⟨n, m, b.1⟩, rfl, by rw [toKernel, Kernel.Pending.asRead, hn, hm]; rfl⟩, hcanonical⟩
  · cases h

/-- What is read of constants is what the kernel's are taken for. -/
lemma Constants.toKernel_of_ofData {data : Plutus.Data} {self : Constants}
    (h : ofData data = some self) :
    (∃ constants, Kernel.Constants.ofData data = some constants ∧
      self.toKernel = constants.asRead) ∧ self.closePeriod.Canonical := by
  unfold ofData at h
  split at h
  · simp only [Option.bind_eq_bind, Option.bind_eq_some_iff, Option.pure_def,
      Option.some.injEq] at h
    obtain ⟨tag, htag, addVkey, hadd, subVkey, hsub, closePeriod, hperiod, rfl⟩ := h
    obtain rfl := bytes_of_tag htag
    obtain rfl := bytes_of_bytesOfData hadd
    obtain rfl := bytes_of_bytesOfData hsub
    obtain ⟨n, _, rfl, hn, hcanonical⟩ := Duration.toInt_of_ofData hperiod
    exact ⟨⟨⟨tag.bytes, addVkey.1, subVkey.1, n⟩, rfl,
      by rw [toKernel, Kernel.Constants.asRead, hn]⟩, hcanonical⟩
  · cases h

/-- What is read of a stage is what the kernel's is taken for. -/
lemma Stage.toKernel_of_ofData {data : Plutus.Data} {self : Stage} (h : ofData data = some self) :
    (∃ stage, Kernel.Stage.ofData data = some stage ∧ self.toKernel = stage.asRead) ∧
      self.Canonical := by
  have huseds : ∀ {data : Plutus.Data} {useds : List Used}, OnChain.ofData data = some useds →
      ∃ items useds', data = .list items ∧ items.mapM Kernel.Used.ofData = some useds' ∧
        useds.map Used.toKernel = useds'.map Kernel.Used.asRead := by
    intro data useds hread
    obtain ⟨items, rfl, hitems⟩ := list_of_ofData hread
    obtain ⟨⟨useds', huseds', hmap⟩, -⟩ := mapM_of_mapM (P := fun _ => True)
      (fun h => ⟨Used.toKernel_of_ofData h, trivial⟩) hitems
    exact ⟨items, useds', rfl, huseds', hmap⟩
  unfold ofData at h
  split at h
  · simp only [Option.bind_eq_bind, Option.bind_eq_some_iff, Option.pure_def,
      Option.some.injEq] at h
    obtain ⟨useds, hread, subbed, hsubbed, rfl⟩ := h
    obtain ⟨items, useds', rfl, hmap, heq⟩ := huseds hread
    obtain ⟨n, _, rfl, hn⟩ := toNat_of_wordOfData hsubbed
    exact ⟨⟨.opened n useds', by simp [Kernel.Stage.ofData, hmap],
      by rw [toKernel, Kernel.Stage.asRead, hn, heq]⟩, trivial⟩
  · simp only [Option.bind_eq_bind, Option.bind_eq_some_iff, Option.pure_def,
      Option.some.injEq] at h
    obtain ⟨useds, hread, subbed, hsubbed, elapseAt, helapse, rfl⟩ := h
    obtain ⟨items, useds', rfl, hmap, heq⟩ := huseds hread
    obtain ⟨n, _, rfl, hn⟩ := toNat_of_wordOfData hsubbed
    obtain ⟨m, _, rfl, hm, hcanonical⟩ := Duration.toInt_of_ofData helapse
    exact ⟨⟨.closed n useds' m, by simp [Kernel.Stage.ofData, hmap],
      by rw [toKernel, Kernel.Stage.asRead, hn, heq, hm]⟩, hcanonical⟩
  · simp only [Option.bind_eq_bind, Option.bind_eq_some_iff, Option.pure_def,
      Option.some.injEq] at h
    obtain ⟨pendings, hread, pendingsAmount, hamount, rfl⟩ := h
    obtain ⟨items, rfl, hitems⟩ := list_of_ofData hread
    obtain ⟨⟨pends, hpends, heq⟩, hcanonical⟩ := mapM_of_mapM Pending.toKernel_of_ofData hitems
    obtain ⟨n, _, rfl, hn⟩ := toNat_of_wordOfData hamount
    exact ⟨⟨.responded n pends, by simp [Kernel.Stage.ofData, hpends],
      by rw [toKernel, Kernel.Stage.asRead, hn, heq]⟩, hcanonical⟩
  · cases h

/-- **Two readings of a datum.**  The kernel reads whatever is read off chain, and what is read off
chain is what the kernel's values are taken for; all its times are in whole milliseconds. -/
theorem Datum.toKernel_of_ofData {data : Plutus.Data} {self : Datum} (h : ofData data = some self) :
    ∃ constants stage, Kernel.Datum.ofData data = some ⟨self.ownHash, constants, stage⟩ ∧
      self.constants.toKernel = constants.asRead ∧ self.constants.closePeriod.Canonical ∧
        self.stage.toKernel = stage.asRead ∧ self.stage.Canonical := by
  unfold ofData at h
  split at h
  · simp only [Option.bind_eq_bind, Option.bind_eq_some_iff, Option.pure_def,
      Option.some.injEq] at h
    obtain ⟨ownHash, hown, constants, hconstants, stage, hstage, rfl⟩ := h
    obtain rfl := bytes_of_bytesOfData hown
    obtain ⟨⟨constants', hconstants', hasConstants⟩, hperiod⟩ :=
      Constants.toKernel_of_ofData hconstants
    obtain ⟨⟨stage', hstage', hasStage⟩, hcanonical⟩ := Stage.toKernel_of_ofData hstage
    refine ⟨constants', stage', ?_, hasConstants, hperiod, hasStage, hcanonical⟩
    simp [Kernel.Datum.ofData, hconstants', hstage']
  · cases h

/-! ### Data that both read the same -/

/-- The constants in the datum of the output are the channel's own: the kernel reads there what was
read. -/
def OwnConstants (output : Kernel.Output) (constants : Constants) : Prop :=
  ∃ ownHash stage, output.channel = some ⟨ownHash, constants.toKernel, stage⟩

lemma OwnConstants.eq {output : Kernel.Output} {constants : Constants}
    {ownHash : Kernel.ScriptHash} {constants' : Kernel.Constants} {stage : Kernel.Stage}
    (h : OwnConstants output constants)
    (honChain : output.channel = some ⟨ownHash, constants', stage⟩) :
    constants' = constants.toKernel := by
  obtain ⟨ownHash', stage', hown⟩ := h
  have heq := Option.some.inj (honChain.symm.trans hown)
  simp only [Kernel.Datum.mk.injEq] at heq
  exact heq.2.1

/-- The datum of the output is the channel's own: the kernel reads in it what was read. -/
def OwnDatum (output : Kernel.Output) (constants : Constants) (stage : Stage) : Prop :=
  ∃ ownHash, output.channel = some ⟨ownHash, constants.toKernel, stage.toKernel⟩

namespace OwnDatum

variable {output : Kernel.Output} {constants : Constants} {stage : Stage}

lemma ownConstants (h : OwnDatum output constants stage) : OwnConstants output constants := by
  obtain ⟨ownHash, h⟩ := h
  exact ⟨ownHash, _, h⟩

/-- The kernel reads nothing else. -/
lemma eq {ownHash : Kernel.ScriptHash} {constants' : Kernel.Constants} {stage' : Kernel.Stage}
    (h : OwnDatum output constants stage)
    (honChain : output.channel = some ⟨ownHash, constants', stage'⟩) :
    constants' = constants.toKernel ∧ stage' = stage.toKernel := by
  obtain ⟨ownHash', hown⟩ := h
  have heq := Option.some.inj (honChain.symm.trans hown)
  simp only [Kernel.Datum.mk.injEq] at heq
  exact heq.2

end OwnDatum

end Konduit.Data
