import Mathlib.Data.List.Nodup
import Konduit.Tmp.ReceiptRuns

/-!
# When a squash can be proposed

A proposal squashes the unlocked cheques, and excludes what it skips on the way to the last of
them: indexes that the squash excludes, that locked cheques hold, or that no cheque has.  There is
one just when few enough are skipped (`proposeSquashBody_isOk_iff`), whoever holds them.  Once it is
signed it is let in, and the locked cheques are left (`applySquash_of_proposal`).
-/

open Lib

namespace Konduit.Tmp

open Data

/-! ### Squashing cheques in order -/

section Squash

variable {T : Type} {usizeBits : ℕ} {body body' : SquashBody} {cheques : List (ChequeBody T)}
  {skipped : List UInt64}

/-- The indexes below some cheque that are not squashed, or not yet, are among the skipped ones. -/
def Skips (body : SquashBody) (cheques : List (ChequeBody T)) (skipped : List UInt64) : Prop :=
  ∀ cheque ∈ cheques, ∀ i < cheque.index,
    body.Squashed i ∨ (∃ other ∈ cheques, other.index = i) ∨ i ∈ skipped

/-- Up to the first cheque, all that is excluded is skipped. -/
lemma newLength_le {cheque : ChequeBody T} (h : body.WellFormed)
    (hlater : ∀ other ∈ cheques, cheque.index < other.index) (hnew : ¬body.Squashed cheque.index)
    (hskips : Skips body (cheque :: cheques) skipped)
    (hshort : skipped.length ≤ maxExcludeLength) :
    body.newLength cheque.index ≤ maxExcludeLength := by
  rcases SquashBody.lt_or_mem_of_not_squashed hnew with hlt | hmem
  · have hnext : body.index + 1 ≤ cheque.index :=
      (SquashBody.next_le_iff hlt cheque.index).mpr hlt
    have hgap : ∀ i, i ∈ Indexes.range (body.index + 1) cheque.index ↔
        body.index < i ∧ i < cheque.index := fun i => by
      rw [Indexes.mem_range hnext, SquashBody.next_le_iff hlt]
    have hnodup : (body.exclude.items ++ Indexes.range (body.index + 1) cheque.index).Nodup := by
      refine List.Nodup.append (h.exclude.sorted.imp ne_of_lt)
        ((Indexes.sorted_range hnext).imp ne_of_lt) fun i hi hi' => ?_
      exact absurd (h.below i hi) ((hgap i).mp hi').1.not_gt
    have hsub : ∀ i ∈ body.exclude.items ++ Indexes.range (body.index + 1) cheque.index,
        i ∈ skipped := by
      intro i hi
      obtain ⟨hbelow, hnot⟩ : i < cheque.index ∧ ¬body.Squashed i := by
        rcases List.mem_append.mp hi with hi | hi
        · exact ⟨(h.below i hi).trans hlt, fun hs => hs.2 hi⟩
        · obtain ⟨hgt, hlt'⟩ := (hgap i).mp hi
          exact ⟨hlt', fun hs => absurd hs.1 (not_le.mpr hgt)⟩
      rcases hskips cheque List.mem_cons_self i hbelow with hs | ⟨other, hother, rfl⟩ | hs
      · exact absurd hs hnot
      · -- no cheque comes before the first
        rcases List.mem_cons.mp hother with rfl | hother
        · exact absurd hbelow (lt_irrefl _)
        · exact absurd hbelow (hlater other hother).not_gt
      · exact hs
    rw [SquashBody.newLength_of_lt h hlt, ← Indexes.toNat_sub_of_le hnext,
      ← Indexes.length_range, ← List.length_append]
    exact (List.subperm_of_subset hnodup hsub).length_le.trans hshort
  · have hexclude := h.exclude.short
    rw [SquashBody.newLength, if_pos hmem]
    omega

/-- Cheques in order are squashed while few enough indexes are skipped. -/
lemma squashCheques_isOk (hbits : 32 ≤ usizeBits) (h : body.WellFormed)
    (hsorted : cheques.Pairwise (·.index < ·.index))
    (hnew : ∀ cheque ∈ cheques, ¬body.Squashed cheque.index)
    (hskips : Skips body cheques skipped) (hshort : skipped.length ≤ maxExcludeLength) :
    ∃ body', cheques.foldlM (SquashBody.squashCheque usizeBits) body = .ok body' := by
  induction cheques generalizing body with
  | nil => exact ⟨body, rfl⟩
  | cons cheque cheques ih =>
    obtain ⟨hlater, hsorted⟩ := List.pairwise_cons.mp hsorted
    obtain ⟨hfirst, hnew⟩ := List.forall_mem_cons.mp hnew
    obtain ⟨next, hnext⟩ : ∃ next, body.squash usizeBits cheque.index cheque.amount = .ok next :=
      SquashBody.squash_of_short hbits h hfirst (newLength_le h hlater hfirst hskips hshort)
    obtain ⟨hwf, -, -, -, hsquashed⟩ := SquashBody.squash_eq_ok h hnext
    have hrest : ∀ later ∈ cheques, ¬next.Squashed later.index := by
      intro later hmem hs
      rcases (hsquashed later.index).mp hs with hs | hs
      · exact hnew later hmem hs
      · exact (hlater later hmem).ne' hs
    have hskips' : Skips next cheques skipped := by
      intro later hmem i hi
      rcases hskips later (List.mem_cons_of_mem _ hmem) i hi with hs | ⟨other, hother, rfl⟩ | hs
      · exact Or.inl ((hsquashed i).mpr (Or.inl hs))
      · rcases List.mem_cons.mp hother with rfl | hother
        · exact Or.inl ((hsquashed _).mpr (Or.inr rfl))
        · exact Or.inr (Or.inl ⟨other, hother, rfl⟩)
      · exact Or.inr (Or.inr hs)
    obtain ⟨body', hbody'⟩ := ih hwf hsorted hrest hskips'
    refine ⟨body', ?_⟩
    rw [List.foldlM_cons]
    exact Result.bind_eq_ok.mpr ⟨next, hnext, hbody'⟩

/-- What is skipped once cheques are squashed is excluded. -/
lemma skips_of_squashCheques (h : body.WellFormed)
    (hsquash : cheques.foldlM (SquashBody.squashCheque usizeBits) body = .ok body') :
    Skips body cheques body'.exclude.items := by
  obtain ⟨-, -, -, hsquashed, -⟩ := SquashBody.squashCheques_eq_ok h hsquash
  intro cheque hcheque i hi
  have hle : i ≤ body'.index := by
    have hs : body'.Squashed cheque.index := (hsquashed _).mpr (Or.inr ⟨cheque, hcheque, rfl⟩)
    exact hi.le.trans hs.1
  by_cases hmem : i ∈ body'.exclude.items
  · exact Or.inr (Or.inr hmem)
  · exact ((hsquashed i).mp ⟨hle, hmem⟩).imp_right Or.inl

end Squash

/-! ### Proposals of a receipt -/

namespace Receipt

/-- Few enough indexes below an unlocked cheque's are neither squashed nor unlocked. -/
def FewSkipped (self : Receipt) : Prop :=
  ∃ skipped : List UInt64, skipped.length ≤ maxExcludeLength ∧
    ∀ u ∈ self.unlockeds, ∀ i < u.index,
      self.squash.isIndexSquashed i = true ∨ i ∈ self.unlockeds.map ChequeSigned.index ∨ i ∈ skipped

variable {self receipt' : Receipt} {usizeBits : ℕ} {body : SquashBody} {squash : Squash .verified}

lemma asUnlocked_eq_some {cheque : Cheque .verified} {u : Unlocked .verified} :
    cheque.asUnlocked = some u ↔ cheque = .unlocked u := by
  cases cheque <;> simp [Cheque.asUnlocked]

/-- The unlocked cheques are in the order of the cheques. -/
lemma Tidy.sorted_unlockeds (h : self.Tidy) :
    self.unlockeds.Pairwise (·.index < ·.index) := by
  rw [unlockeds, List.pairwise_filterMap]
  refine (List.pairwise_map.mp h.sorted).imp fun {c c'} hlt u hu u' hu' => ?_
  rw [asUnlocked_eq_some.mp hu, asUnlocked_eq_some.mp hu'] at hlt
  exact hlt

lemma mem_unlockeds {u : Unlocked .verified} :
    u ∈ self.unlockeds ↔ Cheque.unlocked u ∈ self.cheques := by
  simp [unlockeds, asUnlocked_eq_some]

lemma Tidy.not_squashed (h : self.Tidy) (hwf : self.squash.body.WellFormed)
    {u : Unlocked .verified} (hu : u ∈ self.unlockeds) : ¬self.squash.body.Squashed u.index := by
  have hnot := h.unsquashed u.index (List.mem_map.mpr ⟨_, mem_unlockeds.mp hu, rfl⟩)
  rw [← SquashBody.isIndexSquashed_iff hwf]
  exact Bool.not_eq_true _ ▸ hnot

lemma skips_iff (hwf : self.squash.body.WellFormed) {skipped : List UInt64} :
    Skips self.squash.body (self.unlockeds.map ChequeSigned.body) skipped ↔
      ∀ u ∈ self.unlockeds, ∀ i < u.index, self.squash.isIndexSquashed i = true ∨
        i ∈ self.unlockeds.map ChequeSigned.index ∨ i ∈ skipped := by
  rw [Skips, List.forall_mem_map]
  simp only [← SquashBody.isIndexSquashed_iff hwf, List.mem_map, exists_exists_and_eq_and]
  rfl

/-- There is a proposal just when few enough indexes are skipped. -/
theorem proposeSquashBody_isOk_iff (hbits : 32 ≤ usizeBits) (htidy : self.Tidy)
    (hwf : self.squash.body.WellFormed) :
    (∃ body, self.proposeSquashBody usizeBits = .ok body) ↔ self.FewSkipped := by
  simp only [proposeSquashBody, squashAll_iff, FewSkipped, ← skips_iff hwf]
  constructor
  · rintro ⟨body, hbody⟩
    obtain ⟨hwf', -⟩ := SquashBody.squashCheques_eq_ok hwf hbody
    exact ⟨_, hwf'.exclude.short, skips_of_squashCheques hwf hbody⟩
  · rintro ⟨skipped, hshort, hskips⟩
    refine squashCheques_isOk hbits hwf (List.pairwise_map.mpr htidy.sorted_unlockeds) ?_ hskips
      hshort
    exact List.forall_mem_map.mpr fun u hu => htidy.not_squashed hwf hu

/-- What is unlocked is the only cheque of its index. -/
lemma Tidy.unlocked_iff (h : self.Tidy) {c : Cheque .verified} (hc : c ∈ self.cheques) :
    c.index ∈ self.unlockeds.map ChequeSigned.index ↔ c.asUnlocked.isSome = true := by
  rw [List.mem_map, Option.isSome_iff_exists]
  constructor
  · rintro ⟨u, hu, hindex⟩
    have hnodup : (self.cheques.map Cheque.index).Nodup := h.sorted.imp ne_of_lt
    have heq : Cheque.unlocked u = c :=
      List.inj_on_of_nodup_map hnodup (mem_unlockeds.mp hu) hc hindex
    exact ⟨u, asUnlocked_eq_some.mpr heq.symm⟩
  · rintro ⟨u, hu⟩
    obtain rfl := asUnlocked_eq_some.mp hu
    exact ⟨u, mem_unlockeds.mpr hc, rfl⟩

lemma amounts_unlockeds (self : Receipt) :
    (self.cheques.filter fun c => c.asUnlocked.isSome).map Cheque.amount =
      self.unlockeds.map ChequeSigned.amount := by
  rw [unlockeds]
  induction self.cheques with
  | nil => rfl
  | cons c cheques ih =>
    cases c with
    | unlocked u => exact congrArg _ ih
    | locked l => exact ih

/-- A proposal is worth what is owed, and squashes the unlocked cheques beside what is
squashed. -/
theorem proposeSquashBody_spec (hwf : self.squash.body.WellFormed)
    (h : self.proposeSquashBody usizeBits = .ok body) :
    body.amount = self.owed ∧ ∀ i, body.isIndexSquashed i = true ↔
      self.squash.isIndexSquashed i = true ∨ i ∈ self.unlockeds.map ChequeSigned.index := by
  obtain ⟨hwf', -, hamount, hsquashed, -⟩ := squashAll_eq_ok hwf h
  refine ⟨hamount, fun i => ?_⟩
  rw [SquashBody.isIndexSquashed_iff hwf', hsquashed, ← SquashBody.isIndexSquashed_iff hwf,
    List.mem_map]
  rfl

/-- A proposal that is signed is let in, and leaves the locked cheques. -/
theorem applySquash_of_proposal (htidy : self.Tidy) (hwf : self.squash.body.WellFormed)
    (h : self.proposeSquashBody usizeBits = .ok body) (hbody : squash.body = body) :
    self.applySquash squash = .ok ⟨squash, self.cheques.filter fun c => c.asUnlocked.isNone⟩ := by
  obtain ⟨hamount, hsquashed⟩ := proposeSquashBody_spec hwf h
  have hcheque : ∀ c ∈ self.cheques,
      squash.isIndexSquashed c.index = c.asUnlocked.isSome := by
    intro c hc
    have hnot := htidy.unsquashed c.index (List.mem_map_of_mem hc)
    rw [Bool.eq_iff_iff, Squash.isIndexSquashed, hbody, hsquashed, hnot, htidy.unlocked_iff hc]
    simp
  have hamount' : squash.amount = self.owed := (congrArg SquashBody.amount hbody).trans hamount
  refine applySquash_eq_ok.mpr ⟨?_, ?_⟩
  · rw [List.filter_congr hcheque, amounts_unlockeds, hamount', owed]
    exact lt_irrefl _
  · congr 1
    refine List.filter_congr fun c hc => ?_
    rw [hcheque c hc, Option.not_isSome]

end Receipt

end Konduit.Tmp
