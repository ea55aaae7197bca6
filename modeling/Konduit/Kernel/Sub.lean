import Konduit.Kernel.Common

/-!
# The sub step

The adaptor withdraws from an opened channel, on a squash and unlocked cheques.  The
continuing datum lists the cheques that were used: each is either one that the datum
already listed or one that is unlocked by this step.
-/

open Lib

namespace Konduit.Kernel.Sub

/-- What the fold over the continuing useds carries. -/
structure Acc where
  owed : Amount
  usedsIn : List Used
  unlockeds : List Unlocked
  index : Index
  exclude : Exclude

/-- Where the accumulator is, as a cursor over the indexes. -/
def Acc.cursor (acc : Acc) : Cursor Index := ⟨acc.index, acc.exclude⟩

section Account

variable (crypto : Crypto) (upperBound : Timebound) (wellsigned : ChequeBody → Signature → Bool)

/-- The used is the next of the unlocked cheques. -/
def handleUnlocked (used : Used) (acc : Acc) : Option Acc :=
  match acc.unlockeds with
  | [] => none
  | ⟨body, signature⟩ :: unlockeds => do
    let (newIndex, amount, timeout) ← unlocked wellsigned crypto body signature
    let upperBound ← upperBound.finite?
    expect (upperBound ≤ timeout)
    let (index, exclude) ← nextIndex acc.index acc.exclude newIndex
    expect ((⟨newIndex, amount⟩ : Used) = used)
    return { acc with owed := amount + acc.owed, unlockeds, index, exclude }

/-- Account for one of the continuing useds. -/
def with_ (acc : Acc) (used : Used) : Option Acc :=
  let usedsIn := dropUntil acc.usedsIn fun u => u.index < used.index
  let acc := { acc with usedsIn }
  match usedsIn with
  | [] => handleUnlocked crypto upperBound wellsigned used acc
  | usedIn :: rest =>
    match compare usedIn.index used.index with
    | .lt => some { acc with usedsIn := rest }
    | .eq => do
      expect (usedIn = used)
      let (index, exclude) ← nextIndex acc.index acc.exclude usedIn.index
      return { acc with owed := acc.owed + usedIn.amount, usedsIn := rest, index, exclude }
    | .gt => handleUnlocked crypto upperBound wellsigned used acc

end Account

/-- The amount that the squash and the continuing useds are evidence for. -/
def account (crypto : Crypto) (upperBound : Timebound) (key : VerificationKey) (tag : Tag)
    (usedsIn usedsOut : List Used) (squash : Squash) (unlockeds : List Unlocked) :
    Option Amount := do
  expect (wellsigned crypto key tag squash.body squash.signature)
  let acc ← usedsOut.foldlM (with_ crypto upperBound (wellsigned crypto key tag))
    ⟨squash.body.amount, usedsIn, unlockeds, squash.body.index, squash.body.exclude⟩
  return acc.owed

end Konduit.Kernel.Sub

namespace Konduit.Kernel

/-- The adaptor takes out of an opened channel what it can account for. -/
def Sub.do (crypto : Crypto) (upperBound : Timebound) (constants : Constants) (valueIn : Value)
    (stageIn : Stage) (valueOut : Value) (stageOut : Stage) (squash : Squash)
    (unlockeds : List Unlocked) : Option VerificationKey :=
  match stageIn, stageOut with
  | .opened subbedIn usedsIn, .opened subbedOut usedsOut => do
    let out ← amountOut valueOut
    expect (subbedOut - subbedIn = amountIn valueIn - out)
    let amount ← Sub.account crypto upperBound constants.addVkey constants.tag usedsIn usedsOut
      squash unlockeds
    expect (subbedOut ≤ amount)
    return constants.subVkey
  | _, _ => none

/-- What an accepted sub amounts to. -/
lemma Sub.do_eq_some {crypto : Crypto} {upperBound : Timebound} {constants : Constants}
    {valueIn valueOut : Value} {subbedIn subbedOut : Amount} {usedsIn usedsOut : List Used}
    {squash : Squash} {unlockeds : List Unlocked} {vkey : VerificationKey} :
    Sub.do crypto upperBound constants valueIn (.opened subbedIn usedsIn) valueOut
        (.opened subbedOut usedsOut) squash unlockeds = some vkey ↔
      (∃ out, amountOut valueOut = some out ∧ subbedOut - subbedIn = amountIn valueIn - out) ∧
        (∃ amount, account crypto upperBound constants.addVkey constants.tag usedsIn usedsOut squash
          unlockeds = some amount ∧ subbedOut ≤ amount) ∧ vkey = constants.subVkey := by
  simp only [Sub.do, Option.bind_eq_bind, Option.bind_eq_some_iff, expect_eq_some,
    Option.pure_def, Option.some.injEq]
  constructor
  · rintro ⟨out, hout, -, hsubbed, amount, haccount, -, hle, rfl⟩
    exact ⟨⟨out, hout, hsubbed⟩, ⟨amount, haccount, hle⟩, rfl⟩
  · rintro ⟨⟨out, hout, hsubbed⟩, ⟨amount, haccount, hle⟩, rfl⟩
    exact ⟨out, hout, (), hsubbed, amount, haccount, (), hle, rfl⟩

/-- Sub takes an opened channel to an opened channel. -/
lemma Sub.stages_of_do {crypto : Crypto} {upperBound : Timebound} {constants : Constants}
    {valueIn valueOut : Value} {stageIn stageOut : Stage} {squash : Squash}
    {unlockeds : List Unlocked} {vkey : VerificationKey}
    (h : Sub.do crypto upperBound constants valueIn stageIn valueOut stageOut squash unlockeds =
      some vkey) :
    ∃ subbedIn usedsIn subbedOut usedsOut, stageIn = .opened subbedIn usedsIn ∧
      stageOut = .opened subbedOut usedsOut := by
  cases stageIn with
  | opened subbedIn usedsIn =>
    cases stageOut with
    | opened subbedOut usedsOut => exact ⟨_, _, _, _, rfl, rfl⟩
    | closed | responded => exact absurd h (by simp [Sub.do])
  | closed | responded => exact absurd h (by simp [Sub.do])

end Konduit.Kernel

namespace Konduit.Kernel.Sub

/-! ### What one used can do -/

variable {crypto : Crypto} {upperBound : Timebound} {key : VerificationKey} {tag : Tag}
  {acc acc' : Acc} {used : Used} {useds usedsIn usedsOut : List Used} {unlockeds : List Unlocked}

lemma handleUnlocked_some
    (h : handleUnlocked crypto upperBound (wellsigned crypto key tag) used acc = some acc') :
    ∃ cheque, acc.unlockeds = cheque :: acc'.unlockeds ∧
      cheque.Proven crypto upperBound key tag ∧ cheque.used = used ∧
      acc.cursor.advance used.index = some acc'.cursor ∧ acc'.owed = acc.owed + used.amount ∧
      acc'.usedsIn = acc.usedsIn := by
  rw [handleUnlocked] at h
  split at h
  · exact absurd h (by simp)
  · rename_i body signature rest hu
    simp only [Option.bind_eq_bind, Option.bind_eq_some_iff, unlocked_eq_some, expect_eq_some,
      Timebound.finite?_eq_some, Option.pure_def, Option.some.injEq] at h
    obtain ⟨-, ⟨⟨hsigned, hlength⟩, rfl⟩, t, hbound, -, htime, next, hnext, -, rfl, rfl⟩ := h
    exact ⟨⟨body, signature⟩, hu, ⟨hsigned, hlength, t, hbound, htime⟩, rfl,
      nextIndex_eq_some.mp hnext, add_comm _ _, rfl⟩

/-- A used that is accounted for was in the datum or is unlocked now; either way the cursor
moves to its index and its amount is owed. -/
lemma with_some (h : with_ crypto upperBound (wellsigned crypto key tag) acc used = some acc') :
    (used ∈ acc.usedsIn ∨
        ∃ cheque ∈ acc.unlockeds, cheque.Proven crypto upperBound key tag ∧ cheque.used = used) ∧
      acc.cursor.advance used.index = some acc'.cursor ∧ acc'.owed = acc.owed + used.amount ∧
      acc'.usedsIn ⊆ acc.usedsIn ∧ acc'.unlockeds ⊆ acc.unlockeds := by
  have hsub := (List.dropWhile_suffix (fun u : Used => decide (u.index < used.index))
    (l := acc.usedsIn)).subset
  rw [← dropUntil_eq_dropWhile] at hsub
  simp only [with_] at h
  split at h
  · obtain ⟨cheque, hunl, hproven, hused, hadv, howed, huseds⟩ := handleUnlocked_some h
    have hunl : acc.unlockeds = cheque :: acc'.unlockeds := hunl
    exact ⟨Or.inr ⟨cheque, hunl ▸ List.mem_cons_self, hproven, hused⟩, hadv, howed,
      huseds ▸ hsub, hunl ▸ List.subset_cons_self _ _⟩
  · rename_i usedIn rest heq
    -- what is dropped is below the used, so the next one is not
    rw [heq] at hsub
    have hhead : ¬usedIn.index < used.index := by
      have := List.head?_dropWhile_not (fun u : Used => decide (u.index < used.index)) acc.usedsIn
      rw [← dropUntil_eq_dropWhile, heq] at this
      simpa using this
    split at h
    · -- no used is left below
      rename_i hlt
      exact absurd (compare_lt_iff_lt.mp hlt) hhead
    · simp only [Option.bind_eq_bind, Option.bind_eq_some_iff, expect_eq_some, Option.pure_def,
        Option.some.injEq] at h
      -- the used was in the datum
      obtain ⟨-, rfl, next, hnext, rfl⟩ := h
      exact ⟨Or.inl (hsub List.mem_cons_self), nextIndex_eq_some.mp hnext, rfl,
        fun _ hu => hsub (List.mem_cons_of_mem _ hu), List.Subset.refl _⟩
    · obtain ⟨cheque, hunl, hproven, hused, hadv, howed, huseds⟩ := handleUnlocked_some h
      have hunl : acc.unlockeds = cheque :: acc'.unlockeds := hunl
      exact ⟨Or.inr ⟨cheque, hunl ▸ List.mem_cons_self, hproven, hused⟩, hadv, howed,
        by simpa [huseds, heq] using hsub, hunl ▸ List.subset_cons_self _ _⟩

/-! ### What a whole account adds up to -/

lemma foldlM_with_some
    (h : useds.foldlM (with_ crypto upperBound (wellsigned crypto key tag)) acc = some acc') :
    (∀ u ∈ useds, u ∈ acc.usedsIn ∨
        ∃ cheque ∈ acc.unlockeds, cheque.Proven crypto upperBound key tag ∧ cheque.used = u) ∧
      acc.cursor.advanceAll (useds.map Used.index) = some acc'.cursor ∧
      acc'.owed = acc.owed + usedsAmount useds := by
  induction useds generalizing acc with
  | nil =>
    obtain rfl := Option.some.inj h
    simp
  | cons u useds ih =>
    rw [List.foldlM_cons] at h
    obtain ⟨acc₁, h₁, h₂⟩ := Option.bind_eq_some_iff.mp h
    obtain ⟨hback, hadv, howed, husedsIn, hunlockeds⟩ := with_some h₁
    obtain ⟨hrest, hadvs, howeds⟩ := ih h₂
    refine ⟨?_, ?_, ?_⟩
    · intro v hv
      rcases List.mem_cons.mp hv with rfl | hv
      · exact hback
      · rcases hrest v hv with hin | ⟨cheque, hmem, hcheque⟩
        · exact Or.inl (husedsIn hin)
        · exact Or.inr ⟨cheque, hunlockeds hmem, hcheque⟩
    · simp [hadv, hadvs]
    · rw [howeds, howed, usedsAmount_cons, add_assoc]

/-- An account is what the fold owes in the end. -/
lemma account_eq_some {squash : Squash} {owed : Amount} :
    account crypto upperBound key tag usedsIn usedsOut squash unlockeds = some owed ↔
      wellsigned crypto key tag squash.body squash.signature = true ∧
        ∃ acc, usedsOut.foldlM (with_ crypto upperBound (wellsigned crypto key tag))
          ⟨squash.body.amount, usedsIn, unlockeds, squash.body.index, squash.body.exclude⟩ =
            some acc ∧ owed = acc.owed := by
  simp only [account, Option.bind_eq_bind, Option.bind_eq_some_iff, expect_eq_some,
    Option.pure_def, Option.some.injEq]
  constructor
  · rintro ⟨-, hsigned, acc, hfold, rfl⟩
    exact ⟨hsigned, acc, hfold, rfl⟩
  · rintro ⟨hsigned, acc, hfold, rfl⟩
    exact ⟨(), hsigned, acc, hfold, rfl⟩

/-- The evidence behind an account: the squash is signed, the cursor of the squash moves
through the useds, and every used was in the datum or is unlocked by the step. -/
theorem account_some {squash : Squash} {owed : Amount}
    (h : account crypto upperBound key tag usedsIn usedsOut squash unlockeds = some owed) :
    wellsigned crypto key tag squash.body squash.signature = true ∧
      (∀ u ∈ usedsOut, u ∈ usedsIn ∨
        ∃ cheque ∈ unlockeds, cheque.Proven crypto upperBound key tag ∧ cheque.used = u) ∧
      (∃ c, squash.body.cursor.advanceAll (usedsOut.map Used.index) = some c) ∧
      owed = squash.body.amount + usedsAmount usedsOut := by
  obtain ⟨hsigned, acc, hfold, rfl⟩ := account_eq_some.mp h
  obtain ⟨hback, hadv, howed⟩ := foldlM_with_some hfold
  exact ⟨hsigned, hback, ⟨acc.cursor, hadv⟩, howed⟩

/-! ### Accounts that succeed -/

/-- Continuing useds that an account gets through: in order, each is a used of the datum or
of an index that is not there, and the new ones are the unlocked cheques. -/
structure Merges (usedsIn : List Used) (unlockeds : List Unlocked) (useds : List Used) : Prop where
  sortedIn : usedsIn.Pairwise (·.index < ·.index)
  sorted : useds.Pairwise (·.index < ·.index)
  kept : ∀ u ∈ useds, u ∈ usedsIn ∨ ∀ v ∈ usedsIn, v.index ≠ u.index
  added : useds.filter (fun u : Used => ∀ v ∈ usedsIn, v.index ≠ u.index) =
    unlockeds.map Unlocked.used

/-- The useds behind an index. -/
def behind (useds : List Used) (i : Index) : List Used := useds.filter fun u => i < u.index

lemma dropUntil_of_mem (hs : useds.Pairwise (·.index < ·.index)) (hu : used ∈ useds) :
    dropUntil useds (fun v => v.index < used.index) = used :: behind useds used.index := by
  induction useds with
  | nil => simp at hu
  | cons v useds ih =>
    obtain ⟨hv, hs⟩ := List.pairwise_cons.mp hs
    rcases List.mem_cons.mp hu with rfl | hu
    · -- all that comes after is behind
      have hbehind : behind (used :: useds) used.index = useds := by
        rw [behind, List.filter_cons_of_neg (by simp)]
        exact List.filter_eq_self.mpr fun w hw => by simpa using hv w hw
      rw [dropUntil, if_neg (by simp), hbehind]
    · have hlt := hv used hu
      rw [dropUntil, if_pos (by simpa using hlt), ih hs hu, behind, behind,
        List.filter_cons_of_neg (by simpa using hlt.le)]

lemma dropUntil_of_notMem {i : Index} (hs : useds.Pairwise (·.index < ·.index))
    (hi : ∀ v ∈ useds, v.index ≠ i) :
    dropUntil useds (fun v => v.index < i) = behind useds i := by
  induction useds with
  | nil => rfl
  | cons v useds ih =>
    obtain ⟨hv, hs⟩ := List.pairwise_cons.mp hs
    obtain ⟨hvi, hi⟩ := List.forall_mem_cons.mp hi
    by_cases hlt : v.index < i
    · rw [dropUntil, if_pos (by simpa using hlt), ih hs hi, behind, behind,
        List.filter_cons_of_neg (by simpa using hlt.le)]
    · have hgt : i < v.index := lt_of_le_of_ne (not_lt.mp hlt) (Ne.symm hvi)
      rw [dropUntil, if_neg (by simpa using hlt), behind,
        List.filter_cons_of_pos (by simpa using hgt)]
      congr 1
      exact (List.filter_eq_self.mpr fun w hw => by simpa using hgt.trans (hv w hw)).symm

lemma handleUnlocked_eq {cheque : Unlocked} {rest : List Unlocked}
    (hcheque : cheque.Proven crypto upperBound key tag) (hunl : acc.unlockeds = cheque :: rest) :
    handleUnlocked crypto upperBound (wellsigned crypto key tag) cheque.used acc =
      (acc.cursor.advance cheque.used.index).map fun c =>
        ⟨cheque.used.amount + acc.owed, acc.usedsIn, rest, c.bound, c.skips⟩ := by
  obtain ⟨hsigned, hlength, t, rfl, htime⟩ := hcheque
  have hunlocked : unlocked (wellsigned crypto key tag) crypto cheque.body cheque.signature =
      some (cheque.body.index, cheque.body.amount, cheque.body.timeout) :=
    unlocked_eq_some.mpr ⟨⟨hsigned, hlength⟩, rfl⟩
  simp only [handleUnlocked, hunl, hunlocked, Timebound.finite?, expect_of htime, nextIndex_eq,
    Option.bind_eq_bind, Option.bind_some]
  change _ = ((Cursor.mk acc.index acc.exclude).advance cheque.body.index).map _
  cases (Cursor.mk acc.index acc.exclude).advance cheque.body.index with
  | none => rfl
  | some c => simp [Unlocked.used, expect_of]

/-- A used of the datum moves the cursor to its index and is owed. -/
lemma with_eq_kept (hs : acc.usedsIn.Pairwise (·.index < ·.index)) (hu : used ∈ acc.usedsIn) :
    with_ crypto upperBound (wellsigned crypto key tag) acc used =
      (acc.cursor.advance used.index).map fun c =>
        ⟨acc.owed + used.amount, behind acc.usedsIn used.index, acc.unlockeds, c.bound,
          c.skips⟩ := by
  have hcompare : compare used.index used.index = .eq := compare_eq_iff_eq.mpr rfl
  simp only [with_, dropUntil_of_mem hs hu, hcompare, expect_of, nextIndex_eq,
    Option.bind_eq_bind, Option.bind_some]
  change _ = ((Cursor.mk acc.index acc.exclude).advance used.index).map _
  cases (Cursor.mk acc.index acc.exclude).advance used.index with
  | none => rfl
  | some c => rfl

/-- A used at an index that the datum does not have has to be the next cheque. -/
lemma with_of_new (hs : acc.usedsIn.Pairwise (·.index < ·.index))
    (hnew : ∀ v ∈ acc.usedsIn, v.index ≠ used.index) :
    with_ crypto upperBound (wellsigned crypto key tag) acc used =
      handleUnlocked crypto upperBound (wellsigned crypto key tag) used
        { acc with usedsIn := behind acc.usedsIn used.index } := by
  simp only [with_, dropUntil_of_notMem hs hnew]
  split
  · rfl
  · rename_i u us hcons
    -- the first used that is left is behind the cheque
    have hgt : used.index < u.index := by
      have hmem : u ∈ behind acc.usedsIn used.index := by simp [hcons]
      simpa using (List.mem_filter.mp hmem).2
    rw [compare_gt_iff_gt.mpr hgt]

/-- The next unlocked cheque, at an index that the datum does not have, moves the cursor
there and is owed. -/
lemma with_eq_added {cheque : Unlocked} {rest : List Unlocked}
    (hs : acc.usedsIn.Pairwise (·.index < ·.index))
    (hnew : ∀ v ∈ acc.usedsIn, v.index ≠ cheque.used.index)
    (hcheque : cheque.Proven crypto upperBound key tag) (hunl : acc.unlockeds = cheque :: rest) :
    with_ crypto upperBound (wellsigned crypto key tag) acc cheque.used =
      (acc.cursor.advance cheque.used.index).map fun c =>
        ⟨cheque.used.amount + acc.owed, behind acc.usedsIn cheque.used.index, rest, c.bound,
          c.skips⟩ := by
  rw [with_of_new hs hnew]
  exact @handleUnlocked_eq crypto upperBound key tag
    { acc with usedsIn := behind acc.usedsIn cheque.used.index } cheque rest hcheque hunl

/-- For what comes after a used, the useds that are dropped on the way make no difference. -/
lemma mem_behind {u v : Used} (hu : used.index < u.index) (hv : v.index = u.index) :
    v ∈ behind usedsIn used.index ↔ v ∈ usedsIn := by
  rw [behind, List.mem_filter]
  exact and_iff_left (by simpa [hv] using hu)

lemma new_behind {u : Used} (hu : used.index < u.index) :
    (∀ v ∈ behind usedsIn used.index, v.index ≠ u.index) ↔ ∀ v ∈ usedsIn, v.index ≠ u.index := by
  constructor
  · intro hall v hv heq
    exact hall v ((mem_behind hu heq).mpr hv) heq
  · intro hall v hv
    exact hall v (List.mem_filter.mp hv).1

lemma filter_behind (h : ∀ u ∈ useds, used.index < u.index) :
    useds.filter (fun u : Used => ∀ v ∈ behind usedsIn used.index, v.index ≠ u.index) =
      useds.filter (fun u : Used => ∀ v ∈ usedsIn, v.index ≠ u.index) :=
  List.filter_congr fun u hu => by simpa using new_behind (h u hu)

/-- What is left after the first continuing used still merges. -/
lemma Merges.tail (h : Merges usedsIn unlockeds (used :: useds)) :
    (used ∈ usedsIn ∧ Merges (behind usedsIn used.index) unlockeds useds) ∨
      ∃ cheque rest, unlockeds = cheque :: rest ∧ cheque.used = used ∧
        (∀ v ∈ usedsIn, v.index ≠ used.index) ∧
        Merges (behind usedsIn used.index) rest useds := by
  obtain ⟨hlt, hsorted⟩ := List.pairwise_cons.mp h.sorted
  obtain ⟨hkept, hkepts⟩ := List.forall_mem_cons.mp h.kept
  have htail : ∀ rest, useds.filter (fun u : Used => ∀ v ∈ usedsIn, v.index ≠ u.index) =
      rest.map Unlocked.used → Merges (behind usedsIn used.index) rest useds := by
    intro rest hadded
    refine ⟨h.sortedIn.sublist List.filter_sublist, hsorted, fun u hu => ?_, ?_⟩
    · rcases hkepts u hu with hin | hnot
      · exact Or.inl ((mem_behind (hlt u hu) rfl).mpr hin)
      · exact Or.inr ((new_behind (hlt u hu)).mpr hnot)
    · rw [← hadded]
      exact filter_behind hlt
  have hadded := h.added
  by_cases hin : ∀ v ∈ usedsIn, v.index ≠ used.index
  · rw [List.filter_cons_of_pos (by simpa using hin)] at hadded
    cases unlockeds with
    | nil => simp at hadded
    | cons cheque rest =>
      obtain ⟨hused, hrest⟩ := List.cons.inj hadded
      exact Or.inr ⟨cheque, rest, rfl, hused.symm, hin, htail rest hrest⟩
  · rw [List.filter_cons_of_neg (by simpa using hin)] at hadded
    exact Or.inl ⟨hkept.resolve_right hin, htail unlockeds hadded⟩

/-- The fold over merging useds succeeds exactly when the cursor moves through them, whatever
cheques there are beyond those that it takes. -/
lemma foldlM_with_eq {taken rest : List Unlocked} (hunl : acc.unlockeds = taken ++ rest)
    (h : Merges acc.usedsIn taken useds)
    (hproven : ∀ cheque ∈ taken, cheque.Proven crypto upperBound key tag) :
    (useds.foldlM (with_ crypto upperBound (wellsigned crypto key tag)) acc).map Acc.owed =
      (acc.cursor.advanceAll (useds.map Used.index)).map fun _ => acc.owed + usedsAmount useds := by
  induction useds generalizing acc taken with
  | nil => simp
  | cons u useds ih =>
    rw [List.foldlM_cons, List.map_cons, Cursor.advanceAll_cons, usedsAmount_cons]
    rcases h.tail with ⟨hin, htail⟩ | ⟨cheque, taken, rfl, rfl, hnew, htail⟩
    · rw [with_eq_kept h.sortedIn hin]
      cases acc.cursor.advance u.index with
      | none => rfl
      | some c =>
        have hrest := @ih ⟨acc.owed + u.amount, behind acc.usedsIn u.index, acc.unlockeds, c.bound,
          c.skips⟩ taken hunl htail hproven
        rw [Option.map_some, Option.bind_eq_bind, Option.bind_some, Option.bind_some, hrest,
          add_assoc]
        rfl
    · obtain ⟨hcheque, hrest⟩ := List.forall_mem_cons.mp hproven
      have hunl : acc.unlockeds = cheque :: (taken ++ rest) := hunl
      rw [with_eq_added h.sortedIn hnew hcheque hunl]
      cases acc.cursor.advance cheque.used.index with
      | none => rfl
      | some c =>
        have hrests := @ih ⟨cheque.used.amount + acc.owed, behind acc.usedsIn cheque.used.index,
          taken ++ rest, c.bound, c.skips⟩ taken rfl htail hrest
        rw [Option.map_some, Option.bind_eq_bind, Option.bind_some, Option.bind_some, hrests,
          add_assoc, add_left_comm]
        rfl

/-- The account of a signed squash and useds that merge with the first of the cheques. -/
theorem account_eq {squash : Squash} {taken : List Unlocked} (htaken : taken <+: unlockeds)
    (h : Merges usedsIn taken usedsOut)
    (hsquash : wellsigned crypto key tag squash.body squash.signature = true)
    (hproven : ∀ cheque ∈ taken, cheque.Proven crypto upperBound key tag) :
    account crypto upperBound key tag usedsIn usedsOut squash unlockeds =
      (squash.body.cursor.advanceAll (usedsOut.map Used.index)).map fun _ =>
        squash.body.amount + usedsAmount usedsOut := by
  obtain ⟨rest, rfl⟩ := htaken
  have hfold := @foldlM_with_eq crypto upperBound key tag
    ⟨squash.body.amount, usedsIn, taken ++ rest, squash.body.index, squash.body.exclude⟩ usedsOut
    taken rest rfl h hproven
  rw [account, expect_of hsquash]
  refine Eq.trans ?_ hfold
  simp [Option.map_eq_bind]

end Konduit.Kernel.Sub
