import Mathlib.Data.List.Nodup
import Konduit.Kernel.Evidence
import Konduit.Kernel.Sub

/-!
# The account of a sub step

What the fold over the continuing useds accepts, exactly: useds in order at indexes that the
squash leaves open, each as the datum has it or else the next of the unlocked cheques
(`account_iff`).
-/

open Lib

namespace Konduit.Kernel.Sub

/-- What the continuing useds are to be: in order and not covered by the squash; as the datum
has them at the indexes that it has, and at the others the first of the unlocked cheques, which
are proven. -/
structure Accounted (crypto : Crypto) (upperBound : Timebound) (key : VerificationKey) (tag : Tag)
    (usedsIn : List Used) (squash : Squash) (unlockeds : List Unlocked) (usedsOut : List Used) :
    Prop where
  sorted : usedsOut.Pairwise (·.index < ·.index)
  uncovered : ∀ used ∈ usedsOut, ¬squash.body.Covers used.index
  kept : ∀ used ∈ usedsOut, ∀ usedIn ∈ usedsIn, usedIn.index = used.index → used = usedIn
  added : ∃ taken, taken <+: unlockeds ∧
    usedsOut.filter (fun used : Used => ∀ usedIn ∈ usedsIn, usedIn.index ≠ used.index) =
      taken.map Unlocked.used ∧
    ∀ cheque ∈ taken, cheque.Proven crypto upperBound key tag

variable {crypto : Crypto} {upperBound : Timebound} {key : VerificationKey} {tag : Tag}
  {acc acc' : Acc} {used : Used} {useds usedsIn usedsOut : List Used} {unlockeds : List Unlocked}
  {squash : Squash}

/-! ### What one used takes -/

/-- Nothing that is dropped until an index leaves a used below it in front. -/
lemma compare_ne_lt {usedIn : Used} {rest : List Used}
    (h : dropUntil useds (fun u => u.index < used.index) = usedIn :: rest) :
    compare usedIn.index used.index ≠ .lt := by
  intro hlt
  have hhead := List.head?_dropWhile_not (fun u : Used => decide (u.index < used.index)) useds
  rw [← dropUntil_eq_dropWhile, h] at hhead
  have hnot : ¬usedIn.index < used.index := by simpa using hhead
  exact hnot (compare_lt_iff_lt.mp hlt)

/-- At an index that the datum has, a used is the one of the datum. -/
lemma eq_of_with {usedIn : Used} (hs : acc.usedsIn.Pairwise (·.index < ·.index))
    (h : with_ crypto upperBound (wellsigned crypto key tag) acc used = some acc')
    (hmem : usedIn ∈ acc.usedsIn) (hindex : usedIn.index = used.index) : usedIn = used := by
  have hdrop := dropUntil_of_mem hs hmem
  rw [hindex] at hdrop
  simp only [with_, hdrop, compare_eq_iff_eq.mpr hindex, Option.bind_eq_bind,
    Option.bind_eq_some_iff, expect_eq_some] at h
  obtain ⟨-, heq, -⟩ := h
  exact heq

/-- A used is taken from the datum, or else it is the next of the cheques. -/
lemma with_cases (hs : acc.usedsIn.Pairwise (·.index < ·.index))
    (h : with_ crypto upperBound (wellsigned crypto key tag) acc used = some acc') :
    acc'.usedsIn = behind acc.usedsIn used.index ∧
      ((used ∈ acc.usedsIn ∧ acc'.unlockeds = acc.unlockeds) ∨
        (∀ v ∈ acc.usedsIn, v.index ≠ used.index) ∧
          ∃ cheque, acc.unlockeds = cheque :: acc'.unlockeds ∧
            cheque.Proven crypto upperBound key tag ∧ cheque.used = used) := by
  by_cases hnew : ∀ v ∈ acc.usedsIn, v.index ≠ used.index
  · rw [with_of_new hs hnew] at h
    obtain ⟨cheque, hunl, hproven, hused, -, -, hbehind⟩ := handleUnlocked_some h
    exact ⟨hbehind, Or.inr ⟨hnew, cheque, hunl, hproven, hused⟩⟩
  · obtain ⟨v, hv, hindex⟩ : ∃ v ∈ acc.usedsIn, v.index = used.index := by simpa using hnew
    obtain rfl := eq_of_with hs h hv hindex
    rw [with_eq_kept hs hv] at h
    obtain ⟨c, -, rfl⟩ := Option.map_eq_some_iff.mp h
    exact ⟨rfl, Or.inl ⟨hv, rfl⟩⟩

/-! ### What the fold takes -/

/-- Behind a used in front of them, useds that merge are old or new as before. -/
lemma Merges.kept_of_behind (h : Merges (behind usedsIn used.index) unlockeds useds)
    (hlt : ∀ u ∈ useds, used.index < u.index) :
    ∀ u ∈ useds, u ∈ usedsIn ∨ ∀ v ∈ usedsIn, v.index ≠ u.index := by
  intro u hu
  rcases h.kept u hu with hin | hnot
  · exact Or.inl ((mem_behind (hlt u hu) rfl).mp hin)
  · exact Or.inr ((new_behind (hlt u hu)).mp hnot)

/-- A used of the datum in front of useds that merge. -/
lemma Merges.cons_kept (h : Merges (behind usedsIn used.index) unlockeds useds)
    (hs : usedsIn.Pairwise (·.index < ·.index)) (hlt : ∀ u ∈ useds, used.index < u.index)
    (hused : used ∈ usedsIn) : Merges usedsIn unlockeds (used :: useds) := by
  refine ⟨hs, List.pairwise_cons.mpr ⟨hlt, h.sorted⟩,
    List.forall_mem_cons.mpr ⟨Or.inl hused, h.kept_of_behind hlt⟩, ?_⟩
  have hold : ¬∀ v ∈ usedsIn, v.index ≠ used.index := fun hall => hall used hused rfl
  rw [List.filter_cons_of_neg (by simpa using hold), ← filter_behind hlt, h.added]

/-- A new used in front of useds that merge. -/
lemma Merges.cons_added {cheque : Unlocked}
    (h : Merges (behind usedsIn cheque.used.index) unlockeds useds)
    (hs : usedsIn.Pairwise (·.index < ·.index)) (hlt : ∀ u ∈ useds, cheque.used.index < u.index)
    (hnew : ∀ v ∈ usedsIn, v.index ≠ cheque.used.index) :
    Merges usedsIn (cheque :: unlockeds) (cheque.used :: useds) := by
  refine ⟨hs, List.pairwise_cons.mpr ⟨hlt, h.sorted⟩,
    List.forall_mem_cons.mpr ⟨Or.inr hnew, h.kept_of_behind hlt⟩, ?_⟩
  rw [List.filter_cons_of_pos (by simpa using hnew), ← filter_behind hlt, h.added, List.map_cons]

/-- The useds that a fold gets through merge with the first of the cheques. -/
lemma merges_of_foldlM (hs : acc.usedsIn.Pairwise (·.index < ·.index))
    (hsorted : useds.Pairwise (·.index < ·.index))
    (h : useds.foldlM (with_ crypto upperBound (wellsigned crypto key tag)) acc = some acc') :
    ∃ taken, taken <+: acc.unlockeds ∧ Merges acc.usedsIn taken useds ∧
      ∀ cheque ∈ taken, cheque.Proven crypto upperBound key tag := by
  induction useds generalizing acc with
  | nil => exact ⟨[], List.nil_prefix, ⟨hs, List.Pairwise.nil, by simp, rfl⟩, by simp⟩
  | cons u useds ih =>
    obtain ⟨hlt, hsorted⟩ := List.pairwise_cons.mp hsorted
    rw [List.foldlM_cons] at h
    obtain ⟨acc₁, h₁, h₂⟩ := Option.bind_eq_some_iff.mp h
    obtain ⟨hbehind, hcases⟩ := with_cases hs h₁
    have hs₁ : acc₁.usedsIn.Pairwise (·.index < ·.index) :=
      hbehind ▸ hs.sublist List.filter_sublist
    obtain ⟨taken, htaken, hmerges, hproven⟩ := ih hs₁ hsorted h₂
    rw [hbehind] at hmerges
    rcases hcases with ⟨hu, hunl⟩ | ⟨hnew, cheque, hunl, hcheque, rfl⟩
    · exact ⟨taken, hunl ▸ htaken, hmerges.cons_kept hs hlt hu, hproven⟩
    · refine ⟨cheque :: taken, ?_, hmerges.cons_added hs hlt hnew, ?_⟩
      · rw [hunl]
        exact (List.prefix_cons_inj cheque).mpr htaken
      · exact List.forall_mem_cons.mpr ⟨hcheque, hproven⟩

/-! ### What an account accepts -/

/-- The cursor of the squash moves through the useds when they are in order and not covered. -/
lemma advanceAll_isSome_iff (h : squash.body.WellFormed) :
    (∃ c, squash.body.cursor.advanceAll (useds.map Used.index) = some c) ↔
      useds.Pairwise (·.index < ·.index) ∧ ∀ used ∈ useds, ¬squash.body.Covers used.index := by
  have hordered : squash.body.cursor.Ordered := h.sorted
  rw [Cursor.advanceAll_isSome_iff hordered, List.pairwise_map, List.forall_mem_map]
  simp [SquashBody.Covers]

/-- Useds in order have one used at an index. -/
lemma eq_of_index {u v : Used} (hs : useds.Pairwise (·.index < ·.index)) (hu : u ∈ useds)
    (hv : v ∈ useds) (h : u.index = v.index) : u = v := by
  have hnodup : (useds.map Used.index).Nodup := (List.pairwise_map.mpr hs).imp ne_of_lt
  exact List.inj_on_of_nodup_map hnodup hu hv h

lemma Merges.accounted {taken : List Unlocked} (h : Merges usedsIn taken usedsOut)
    (htaken : taken <+: unlockeds)
    (hproven : ∀ cheque ∈ taken, cheque.Proven crypto upperBound key tag)
    (huncovered : ∀ used ∈ usedsOut, ¬squash.body.Covers used.index) :
    Accounted crypto upperBound key tag usedsIn squash unlockeds usedsOut where
  sorted := h.sorted
  uncovered := huncovered
  kept u hu v hv hindex := by
    rcases h.kept u hu with hin | hnot
    · exact eq_of_index h.sortedIn hin hv hindex.symm
    · exact absurd hindex (hnot v hv)
  added := ⟨taken, htaken, h.added, hproven⟩

lemma Accounted.merges (h : Accounted crypto upperBound key tag usedsIn squash unlockeds usedsOut)
    (hs : usedsIn.Pairwise (·.index < ·.index)) :
    ∃ taken, taken <+: unlockeds ∧ Merges usedsIn taken usedsOut ∧
      ∀ cheque ∈ taken, cheque.Proven crypto upperBound key tag := by
  obtain ⟨taken, htaken, hadded, hproven⟩ := h.added
  refine ⟨taken, htaken, ⟨hs, h.sorted, fun u hu => ?_, hadded⟩, hproven⟩
  by_cases hnew : ∀ v ∈ usedsIn, v.index ≠ u.index
  · exact Or.inr hnew
  · obtain ⟨v, hv, hindex⟩ : ∃ v ∈ usedsIn, v.index = u.index := by simpa using hnew
    exact Or.inl (h.kept u hu v hv hindex ▸ hv)

/-- **The account of a sub.**  On a signed and well-formed squash and useds in order, the account
succeeds just on the continuing useds that are accounted for, and it is the amount of the squash
and of all of them.  What is left of the useds is never below the used that is looked for. -/
theorem account_iff (hs : usedsIn.Pairwise (·.index < ·.index))
    (hsigned : wellsigned crypto key tag squash.body squash.signature = true)
    (hwellFormed : squash.body.WellFormed) (upperBound : Timebound) (usedsOut : List Used)
    (unlockeds : List Unlocked) :
    (∀ owed, account crypto upperBound key tag usedsIn usedsOut squash unlockeds = some owed ↔
      Accounted crypto upperBound key tag usedsIn squash unlockeds usedsOut ∧
        owed = squash.body.amount + usedsAmount usedsOut) ∧
    ∀ (useds : List Used) (used usedIn : Used) (rest : List Used),
      dropUntil useds (fun u => u.index < used.index) = usedIn :: rest →
        compare usedIn.index used.index ≠ .lt := by
  refine ⟨fun owed => ⟨fun h => ?_, ?_⟩, fun useds used usedIn rest => compare_ne_lt⟩
  · obtain ⟨-, -, hadvance, howed⟩ := account_some h
    obtain ⟨hsorted, huncovered⟩ := (advanceAll_isSome_iff hwellFormed).mp hadvance
    obtain ⟨-, acc, hfold, -⟩ := account_eq_some.mp h
    obtain ⟨taken, htaken, hmerges, hproven⟩ := merges_of_foldlM hs hsorted hfold
    exact ⟨hmerges.accounted htaken hproven huncovered, howed⟩
  · rintro ⟨h, rfl⟩
    obtain ⟨taken, htaken, hmerges, hproven⟩ := h.merges hs
    obtain ⟨c, hc⟩ := (advanceAll_isSome_iff hwellFormed).mpr ⟨h.sorted, h.uncovered⟩
    rw [account_eq htaken hmerges hsigned hproven, hc, Option.map_some]

/-- A used that the squash excludes, and the next cheque. -/
theorem account_of_sample :
    account Crypto.noCrypto (.finite 60) (List.replicate 32 0) [] [⟨2, 100⟩]
      [⟨2, 100⟩, ⟨4, 12⟩] ⟨⟨1000, 3, [2]⟩, List.replicate 64 0⟩
      [⟨⟨4, 12, 90, List.replicate 32 0⟩, List.replicate 64 0⟩] = some 1112 := by
  refine ((account_iff (by decide) rfl ⟨by decide, by decide⟩ _ _ _).1 1112).mpr ⟨?_, rfl⟩
  exact ⟨by decide, by decide, by decide, _, List.prefix_rfl, rfl, by
    simpa using ⟨rfl, rfl, 60, rfl, by decide⟩⟩

end Konduit.Kernel.Sub
