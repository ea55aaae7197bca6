import Konduit.Kernel.Respond

/-!
# Evidence for a respond step

What the consumer's evidence is worth, and when the respond step credits exactly that.
The step counts a used only on its way to a cheque at or above its index, and it does not
get past a used that the squash covers.  So it credits the evidence exactly when the
cheques reach no used that the squash covers, and what the squash leaves open beyond the
cheques is worth nothing (`Evidence.account_eq_credit_iff`).
-/

open Lib

namespace Konduit.Kernel

/-- A squash as the consumer signs it: the excluded indexes increase and stay below the
index. -/
structure SquashBody.WellFormed (body : SquashBody) : Prop where
  sorted : body.exclude.Pairwise (· < ·)
  below : ∀ i ∈ body.exclude, i < body.index

namespace Respond

/-- The useds of a closed channel with a squash and mixed cheques, all in order: the squash
is signed and well-formed, the cheques are usable and sorted, none of them is a used, and
none is covered by the squash. -/
structure Evidence (crypto : Crypto) (upperBound : Timebound) (key : VerificationKey)
    (tag : Tag) where
  useds : List Used
  squash : Squash
  cheques : List Cheque
  sortedUseds : useds.Pairwise (·.index < ·.index)
  signed : wellsigned crypto key tag squash.body squash.signature = true
  wellFormed : squash.body.WellFormed
  usable : ∀ cheque ∈ cheques, Usable crypto upperBound key tag cheque
  sortedCheques : cheques.Pairwise (·.index < ·.index)
  disjoint : ∀ u ∈ useds, ∀ cheque ∈ cheques, u.index ≠ cheque.index
  uncovered : ∀ cheque ∈ cheques, ¬squash.body.Covers cheque.index

namespace Evidence

variable {crypto : Crypto} {upperBound : Timebound} {key : VerificationKey} {tag : Tag}
  (e : Evidence crypto upperBound key tag)

/-- The useds that the squash leaves open. -/
def openUseds : List Used := e.useds.filter fun u => ¬e.squash.body.Covers u.index

/-- What the evidence is worth: the squash, the useds it leaves open and the unlocked
cheques. -/
def credit : Amount :=
  e.squash.body.amount + usedsAmount e.openUseds + unlockedAmount e.cheques

/-- What the step makes of the evidence, with the locked cheques as the pendings. -/
def account : Option Amount :=
  Respond.account crypto upperBound key tag e.useds e.squash e.cheques
    (pendsAmount (pendingsOf e.cheques)) (pendingsOf e.cheques)

lemma ordered : e.squash.body.cursor.Ordered := e.wellFormed.sorted

/-- The step succeeds when the squash leaves open all useds that the cheques reach. -/
lemma account_eq_some {owed : Amount} :
    e.account = some owed ↔
      (∀ u ∈ e.useds, Reached e.cheques u → ¬e.squash.body.Covers u.index) ∧
        owed = e.squash.body.amount + usedsAmount (taken e.useds e.cheques) +
          unlockedAmount e.cheques := by
  have hvisits : (∃ c, e.squash.body.cursor.advanceAll (visits e.useds e.cheques) = some c) ↔ _ :=
    Cursor.advanceAll_isSome_iff e.ordered
  rw [account, account_eq e.signed e.usable rfl rfl, Option.map_eq_some_iff]
  constructor
  · rintro ⟨c, hc, rfl⟩
    refine ⟨fun u hu hreached hcovers => hcovers ?_, rfl⟩
    exact (hvisits.mp ⟨c, hc⟩).2 _
      (mem_visits.mpr (Or.inl ⟨u, (mem_taken e.sortedUseds).mpr ⟨hu, hreached⟩, rfl⟩))
  · rintro ⟨hopen, rfl⟩
    have hahead : ∀ j ∈ visits e.useds e.cheques, e.squash.body.cursor.Ahead j := by
      intro j hj
      rcases mem_visits.mp hj with ⟨u, hu, rfl⟩ | ⟨cheque, hcheque, rfl⟩
      · obtain ⟨hu, hreached⟩ := (mem_taken e.sortedUseds).mp hu
        exact not_not.mp (hopen u hu hreached)
      · exact not_not.mp (e.uncovered cheque hcheque)
    obtain ⟨c, hc⟩ := hvisits.mpr
      ⟨sorted_visits e.sortedUseds e.sortedCheques e.disjoint, hahead⟩
    exact ⟨c, hc, rfl⟩

/-- When the step gets through, the open useds are those that it counted and those beyond
the cheques. -/
lemma usedsAmount_openUseds
    (h : ∀ u ∈ e.useds, Reached e.cheques u → ¬e.squash.body.Covers u.index) :
    usedsAmount e.openUseds = usedsAmount (taken e.useds e.cheques) +
      usedsAmount (e.openUseds.filter fun u => ¬Reached e.cheques u) := by
  -- what was counted is open and reached, what is left is not reached
  have htaken : (taken e.useds e.cheques).filter (fun u => ¬e.squash.body.Covers u.index) =
      taken e.useds e.cheques := by
    refine List.filter_eq_self.mpr fun u hu => ?_
    obtain ⟨hu, hreached⟩ := (mem_taken e.sortedUseds).mp hu
    simpa using h u hu hreached
  have hnone : (taken e.useds e.cheques).filter (fun u => ¬Reached e.cheques u) = [] := by
    refine List.filter_eq_nil_iff.mpr fun u hu => ?_
    simpa using reached_of_mem_taken hu
  have hall : ((left e.useds e.cheques).filter fun u => ¬e.squash.body.Covers u.index).filter
      (fun u => ¬Reached e.cheques u) =
        (left e.useds e.cheques).filter fun u => ¬e.squash.body.Covers u.index := by
    refine List.filter_eq_self.mpr fun u hu => ?_
    simpa using not_reached_of_mem_left e.sortedUseds (List.mem_filter.mp hu).1
  have hopen : e.openUseds = taken e.useds e.cheques ++
      (left e.useds e.cheques).filter fun u => ¬e.squash.body.Covers u.index := by
    rw [openUseds, ← taken_append_left e.useds e.cheques, List.filter_append, htaken,
      taken_append_left]
  rw [hopen, List.filter_append, hnone, hall, usedsAmount_append, List.nil_append]

/-- What the step counts is what the evidence is worth when nothing is open beyond the cheques. -/
lemma credit_eq_iff
    (h : ∀ u ∈ e.useds, Reached e.cheques u → ¬e.squash.body.Covers u.index) :
    e.credit = e.squash.body.amount + usedsAmount (taken e.useds e.cheques) +
        unlockedAmount e.cheques ↔
      usedsAmount (e.openUseds.filter fun u => ¬Reached e.cheques u) = 0 := by
  rw [credit, e.usedsAmount_openUseds h]
  constructor
  · intro hcredit
    linarith
  · intro hzero
    rw [hzero]
    linarith

/-- The step credits the evidence exactly when the cheques reach no used that the squash
covers, and the open useds beyond the cheques are worth nothing. -/
theorem account_eq_credit_iff :
    e.account = some e.credit ↔
      (∀ u ∈ e.useds, Reached e.cheques u → ¬e.squash.body.Covers u.index) ∧
        usedsAmount (e.openUseds.filter fun u => ¬Reached e.cheques u) = 0 := by
  rw [account_eq_some]
  constructor
  · rintro ⟨hopen, hcredit⟩
    exact ⟨hopen, (e.credit_eq_iff hopen).mp hcredit⟩
  · rintro ⟨hopen, hzero⟩
    exact ⟨hopen, (e.credit_eq_iff hopen).mpr hzero⟩

/-- One used and one locked cheque above it, on a squash of a hundred with a given index. -/
def sample (index : Index) (h : index < 2) :
    Evidence Crypto.noCrypto (.finite 0) (List.replicate 32 0) [] where
  useds := [⟨1, 70⟩]
  squash := ⟨⟨100, index, []⟩, List.replicate 64 0⟩
  cheques := [.lockedCheque ⟨2, 10, 5, List.replicate 32 0⟩ (List.replicate 64 0)]
  sortedUseds := by simp
  signed := rfl
  wellFormed := ⟨by simp, by simp⟩
  usable := by
    intro cheque hcheque
    rw [List.mem_singleton.mp hcheque]
    rfl
  sortedCheques := by simp
  disjoint := by simp
  uncovered := by simp [SquashBody.covers_iff, h]

/-- A used above the squash is credited. -/
theorem sample_credited : (sample 0 (by decide)).account = some (sample 0 (by decide)).credit :=
  (sample 0 (by decide)).account_eq_credit_iff.mpr (by decide)

/-- A used that the squash covers makes the step fail. -/
theorem sample_not_credited :
    (sample 1 (by decide)).account ≠ some (sample 1 (by decide)).credit := by
  decide

end Evidence

end Respond

end Konduit.Kernel
