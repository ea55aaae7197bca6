import Mathlib.Algebra.BigOperators.Group.List.Basic
import Mathlib.Data.Prod.Lex
import Konduit.Lib.ByKey
import Konduit.Server.Squashes

/-!
# The retainer that is chosen

Of the channels on chain the server retains one.  The design asks for the one with the most to be
subbed, and counts for each candidate what is owed under its own useds (`Retainer.subAble`).  The
code ranks the candidates by what is committed, whatever they have used (`Retainer.rank`).  It
chooses well just when each candidate that is behind in the design's measure is outranked in the
code's (`mostSubAble_iff`), as when each candidate owes what is committed (`noUpset_of_counted`).
-/

open Lib

namespace Konduit.Server

open Data Tmp

namespace Retainer

/-- What is owed under the useds of a candidate: the squash, the cheques that it has not used, and
its useds that are not squashed. -/
def owedTotal (receipt : Option Receipt) (l1 : Retainer) : ℕ :=
  match receipt with
  | none => (l1.useds.map fun u => u.amount.toNat).sum
  | some receipt =>
    receipt.squash.amount.toNat +
      ((receipt.cheques.filter fun c => !l1.useds.any fun u => u.index = c.index).map fun c =>
        c.amount.toNat).sum +
      ((l1.useds.filter fun u => !receipt.squash.isIndexSquashed u.index).map fun u =>
        u.amount.toNat).sum

/-- The design's measure: what can be subbed, and then the amount. -/
def subAble (receipt : Option Receipt) (l1 : Retainer) : ℕ ×ₗ ℕ :=
  toLex (min l1.amount.toNat (l1.owedTotal receipt - l1.subbed.toNat), l1.amount.toNat)

/-- The code's measure: what is committed of the candidate, and then the amount. -/
def rank (receipt : Option Receipt) (l1 : Retainer) : UInt64 ×ₗ UInt64 :=
  match receipt with
  | none => toLex (0, l1.amount)
  | some receipt => toLex (min (Word.satSub receipt.committed l1.subbed) l1.amount, l1.amount)

/-- Another candidate has a greater rank, or the same one and comes later. -/
def Outranked (receipt : Option Receipt) (before : List Retainer) (l1 : Retainer)
    (after : List Retainer) : Prop :=
  (∃ other ∈ before, l1.rank receipt < other.rank receipt) ∨
    ∃ other ∈ after, l1.rank receipt ≤ other.rank receipt

/-- A most sub-able candidate is retained, and none where there are none. -/
def MostSubAble (receipt : Option Receipt) (candidates : List Retainer) : Option Retainer → Prop
  | none => candidates = []
  | some l1 => l1 ∈ candidates ∧ ∀ other ∈ candidates, other.subAble receipt ≤ l1.subAble receipt

/-- Whichever candidate is behind another in the design's measure is outranked in the code's. -/
def NoUpset (receipt : Option Receipt) (candidates : List Retainer) : Prop :=
  ∀ before l1 after, candidates = before ++ l1 :: after →
    (∃ other ∈ candidates, l1.subAble receipt < other.subAble receipt) →
      Outranked receipt before l1 after

end Retainer

section Choice

open Retainer

variable {receipt : Option Receipt} {candidates : List Retainer} {l1 l1' : Retainer}
  {channel : Channel}

lemma Channel.maxByKey_eq {α β : Type} [LT β] [DecidableLT β] (key : α → β) (xs : List α) :
    Channel.maxByKey key xs = Lib.maxByKey key xs := by
  cases xs <;> rfl

/-- Without a receipt the amounts alone are compared. -/
lemma rank_lt_none : l1.rank none < l1'.rank none ↔ l1.amount < l1'.amount := by
  simp [rank, Prod.Lex.toLex_lt_toLex]

/-- The retainer is the last of the candidates with the greatest rank. -/
lemma applyRetainer_eq (channel : Channel) (candidates : List Retainer) :
    channel.applyRetainer candidates =
      .ok { channel with retainer := Lib.maxByKey (rank channel.receipt) candidates } := by
  rw [Channel.applyRetainer]
  cases hreceipt : channel.receipt with
  | none =>
    have hkey : Channel.maxByKey Retainer.amount candidates =
        Lib.maxByKey (rank none) candidates := by
      rw [Channel.maxByKey_eq]
      cases candidates with
      | nil => rfl
      | cons first rest => simp only [Lib.maxByKey, rank_lt_none]
    rw [hkey]
  | some receipt =>
    simp only [Channel.maxByKey_eq]
    rfl

/-- Who is not outranked is retained. -/
lemma not_outranked_iff {before after : List Retainer} :
    ¬Outranked receipt before l1 after ↔
      (∀ other ∈ before, other.rank receipt ≤ l1.rank receipt) ∧
        ∀ other ∈ after, other.rank receipt < l1.rank receipt := by
  simp only [Outranked, not_or, not_exists, not_and, not_lt, not_le]

/-- **The choice.**  For every receipt or none, and every list of candidates, the retainer is a most
sub-able candidate just when each candidate that is behind in the design's measure is outranked in
the code's. -/
theorem mostSubAble_iff (channel : Channel) (candidates : List Retainer) :
    (∃ channel', channel.applyRetainer candidates = .ok channel' ∧
      MostSubAble channel.receipt candidates channel'.retainer) ↔
        NoUpset channel.receipt candidates := by
  rw [applyRetainer_eq]
  simp only [Except.ok.injEq, exists_eq_left']
  rcases eq_or_ne candidates [] with rfl | hne
  · simp [MostSubAble, NoUpset]
  obtain ⟨l1, hl1⟩ := exists_maxByKey (rank channel.receipt) hne
  rw [hl1]
  constructor
  · rintro ⟨-, hmost⟩ before l1' after hsplit ⟨other, hother, hlt⟩
    by_contra hnot
    -- only one candidate is not outranked
    have hl1' := maxByKey_eq_some_iff.mpr ⟨before, after, hsplit, not_outranked_iff.mp hnot⟩
    obtain rfl := Option.some.inj (hl1.symm.trans hl1')
    exact absurd hlt (hmost other hother).not_gt
  · intro h
    obtain ⟨before, after, hsplit, hleads⟩ := maxByKey_eq_some hl1
    refine ⟨mem_of_maxByKey hl1, fun other hother => ?_⟩
    by_contra hnot
    exact not_outranked_iff.mpr hleads (h before l1 after hsplit ⟨other, hother, not_le.mp hnot⟩)

/-- Where each candidate owes what is committed the two measures are the same. -/
theorem noUpset_of_counted {receipt : Receipt}
    (h : ∀ l1 ∈ candidates, l1.owedTotal (some receipt) = receipt.committed.toNat) :
    NoUpset (some receipt) candidates := by
  have hmeasure : ∀ l1 ∈ candidates, l1.subAble (some receipt) =
      toLex ((min (Word.satSub receipt.committed l1.subbed) l1.amount).toNat, l1.amount.toNat) := by
    intro l1 hl1
    rw [subAble, h l1 hl1, Word.toNat_min, Word.toNat_satSub, min_comm]
  have hmono : ∀ l1 ∈ candidates, ∀ other ∈ candidates,
      other.rank (some receipt) ≤ l1.rank (some receipt) →
        other.subAble (some receipt) ≤ l1.subAble (some receipt) := by
    intro l1 hl1 other hother hle
    rw [hmeasure other hother, hmeasure l1 hl1]
    rw [rank, rank, Prod.Lex.toLex_le_toLex] at hle
    rw [Prod.Lex.toLex_le_toLex]
    rcases hle with hlt | ⟨heq, hle⟩
    · exact Or.inl (UInt64.lt_iff_toNat_lt.mp hlt)
    · exact Or.inr ⟨congrArg UInt64.toNat heq, UInt64.le_iff_toNat_le.mp hle⟩
  rintro before l1 after hsplit ⟨other, hother, hlt⟩
  by_contra hnot
  have hleads := maxByKey_eq_some_iff.mpr ⟨before, after, hsplit, not_outranked_iff.mp hnot⟩
  exact absurd hlt
    (hmono l1 (mem_of_maxByKey hleads) other hother (le_of_maxByKey hleads hother)).not_gt

end Choice

namespace Sample

/-- A candidate with a used beyond the receipt, and a richer one without. -/
def withUsed : Retainer := ⟨10, 0, [⟨1, 5⟩], by decide⟩

/-- A retainer of a larger amount. -/
def richer : Retainer := ⟨20, 0, [], Nat.two_pow_pos 64⟩

end Sample

/-- The used is not counted, so the richer candidate is retained, of which nothing can be
subbed. -/
theorem not_mostSubAble_of_used :
    ∃ channel', Sample.channel.applyRetainer [Sample.withUsed, Sample.richer] = .ok channel' ∧
      channel'.retainer = some Sample.richer ∧
      ¬Retainer.MostSubAble Sample.channel.receipt [Sample.withUsed, Sample.richer]
        channel'.retainer := by
  refine ⟨_, rfl, rfl, ?_⟩
  rintro ⟨-, h⟩
  exact absurd (h Sample.withUsed List.mem_cons_self) (by decide)

end Konduit.Server
