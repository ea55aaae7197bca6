import Mathlib.Data.Prod.Lex
import Konduit.Cardano.Transaction
import Konduit.Cardano.Value
import Konduit.Lib.ByKey

/-!
# Selecting fuel

A wallet's outputs are taken until nothing of the amount remains, each time the one that has most
of the assets that are still needed, and of these the one with most lovelace.

The selection covers the amount where the wallet does.  An output that was taken for an asset may
turn out to be superfluous after later ones; one that was taken for its lovelace does not.  Which
outputs are taken depends on how their coverages compare, and on the references only where these are
equal; so the selection is as it is to be, under whatever references, just where no outputs in the
order of their coverage have a superfluous one among them (`exactSelect_iff`).
-/

open Lib

namespace Konduit.Tx2.Fuel

open Cardano Cardano.Value
open Kernel (OutputReference)

/-- Take an element out of a list, and put the last one in its place. -/
def swapRemove {α : Type} (l : List α) (i : Fin l.length) : List α :=
  (l.set i (l.getLast (List.ne_nil_of_length_pos i.pos))).dropLast

/-- What remains when all inputs are selected. -/
inductive SelectError where
  | notCovered (remaining : Value UInt64)
deriving DecidableEq

/-- The number of the needed assets that the candidate holds, then how much it has of the lovelace.
-/
def coverage (candidate remaining : Value UInt64) : ℕ ×ₗ UInt64 :=
  let assetHits := (entries remaining.assets).countP fun x =>
    decide (0 < x.2) && decide (0 < candidate.assets.quantity x.1.1 x.1.2)
  toLex (assetHits, min candidate.lovelace remaining.lovelace)

/-- What remains of the assets of a policy. -/
def saturatingSubInner (b a : OrdMap Bytes UInt64) : OrdMap Bytes UInt64 :=
  OrdMap.update
    (fun _ bQuantity aQuantity => aQuantity.bind fun aQuantity =>
      if Word.satSub aQuantity bQuantity = 0 then none
      else some (Word.satSub aQuantity bQuantity))
    b a

/-- The assets that are missing, policy by policy. -/
def saturatingSubAssets (a b : Assets UInt64) : Assets UInt64 :=
  OrdMap.update
    (fun _ bAssets aAssets => aAssets.bind fun aAssets =>
      if (saturatingSubInner bAssets aAssets).isEmpty then none
      else some (saturatingSubInner bAssets aAssets))
    b a

/-- What is missing of a value. -/
def saturatingSubValue (a b : Value UInt64) : Value UInt64 :=
  (new (Word.satSub a.lovelace b.lovelace)).withAssets
    ((saturatingSubAssets a.assets b.assets).toList.map fun x => (x.1, x.2.toList))

/-- The state of the loop.  Of an output only its value is looked at. -/
structure Selecting where
  remaining : Value UInt64
  total : Value UInt64
  available : List (OutputReference × Value UInt64)
  selected : List OutputReference

namespace Selecting

/-- Nothing is selected. -/
def start (utxos : OrdMap OutputReference (Value UInt64)) (amount : Value UInt64) : Selecting where
  remaining := amount
  total := new 0
  available := utxos.toList
  selected := []

/-- The last one of those that cover most. -/
def best (s : Selecting) : Option (Fin s.available.length) :=
  maxByKey (fun i => coverage (s.available.get i).2 s.remaining) (List.finRange s.available.length)

/-- Select an input, and swap the last one into its place. -/
def take (s : Selecting) (i : Fin s.available.length) : Selecting where
  remaining := saturatingSubValue s.remaining (s.available.get i).2
  total := s.total.add (s.available.get i).2
  available := swapRemove s.available i
  selected := s.selected ++ [(s.available.get i).1]

lemma length_take (s : Selecting) (i : Fin s.available.length) :
    (s.take i).available.length < s.available.length := by
  have hpos := i.pos
  rw [take, swapRemove, List.length_dropLast, List.length_set]
  omega

/-- Take until nothing remains to be covered. -/
def run (s : Selecting) : Except SelectError (List OutputReference) :=
  if s.remaining.isEmpty then .ok s.selected
  else
    match s.best with
    | none => .error (.notCovered s.remaining)
    | some i => (s.take i).run
termination_by s.available.length
decreasing_by exact s.length_take i

end Selecting

/-- Select inputs that hold the amount. -/
def select (utxos : OrdMap OutputReference (Value UInt64)) (amount : Value UInt64) :
    Except SelectError (List OutputReference) :=
  (Selecting.start utxos amount).run

/-! ### What remains -/

section Remaining

variable {a b : Value UInt64}

lemma getD_saturatingSubInner (b a : OrdMap Bytes UInt64) (n : Bytes) :
    (saturatingSubInner b a)[n]?.getD 0 = Word.satSub (a[n]?.getD 0) (b[n]?.getD 0) := by
  rw [saturatingSubInner, OrdMap.getElem?_update]
  cases hb : b[n]? with
  | none => rw [Option.getD_none, Word.satSub_zero]
  | some q =>
    cases ha : a[n]? with
    | none => exact (Word.zero_satSub q).symm
    | some held =>
      by_cases hzero : Word.satSub held q = 0 <;> simp [hzero]

lemma quantity_saturatingSubAssets (a b : Assets UInt64) (p : BytesN 28) (n : Bytes) :
    (saturatingSubAssets a b).quantity p n = Word.satSub (a.quantity p n) (b.quantity p n) := by
  rw [Assets.quantity, saturatingSubAssets, OrdMap.getElem?_update]
  cases hb : b[p]? with
  | none => rw [Assets.quantity_of_none hb, Word.satSub_zero, Assets.quantity]
  | some bAssets =>
    cases ha : a[p]? with
    | none => rw [Assets.quantity_of_none ha, Word.zero_satSub]; rfl
    | some aAssets =>
      rw [Assets.quantity_of_getElem? ha, Assets.quantity_of_getElem? hb,
        ← getD_saturatingSubInner]
      simp only [Option.bind_some]
      split_ifs with hempty
      · rw [Std.ExtTreeMap.isEmpty_iff.mp hempty]
        simp
      · rfl

lemma normal_saturatingSubAssets {a : Assets UInt64} (h : a.Normal) (b : Assets UInt64) :
    (saturatingSubAssets a b).Normal := by
  constructor
  · intro p inner hp n
    rw [saturatingSubAssets, OrdMap.getElem?_update] at hp
    cases hb : b[p]? with
    | none =>
      rw [hb] at hp
      exact h.ne_zero p inner hp n
    | some bAssets =>
      rw [hb] at hp
      obtain ⟨aAssets, ha, hp⟩ := Option.bind_eq_some_iff.mp hp
      split_ifs at hp
      obtain rfl := Option.some.inj hp
      rw [saturatingSubInner, OrdMap.getElem?_update]
      cases bAssets[n]? with
      | none => exact h.ne_zero p aAssets ha n
      | some q =>
        intro heq
        obtain ⟨held, -, heq⟩ := Option.bind_eq_some_iff.mp heq
        split_ifs at heq with hzero
        exact hzero (Option.some.inj heq)
  · intro p inner hp
    rw [saturatingSubAssets, OrdMap.getElem?_update] at hp
    cases hb : b[p]? with
    | none =>
      rw [hb] at hp
      exact h.ne_empty p inner hp
    | some bAssets =>
      rw [hb] at hp
      obtain ⟨aAssets, ha, hp⟩ := Option.bind_eq_some_iff.mp hp
      split_ifs at hp with hempty
      obtain rfl := Option.some.inj hp
      exact fun heq => hempty (Std.ExtTreeMap.isEmpty_iff.mpr heq)

lemma saturatingSubValue_of_normal (h : a.assets.Normal) (b : Value UInt64) :
    saturatingSubValue a b =
      ⟨Word.satSub a.lovelace b.lovelace, saturatingSubAssets a.assets b.assets⟩ :=
  withAssets_new_of_normal _ (normal_saturatingSubAssets h b.assets)

/-- What remains of each unit. -/
theorem quantityOf_saturatingSubValue (h : a.assets.Normal) (b : Value UInt64)
    (unit : Value.Unit) :
    quantityOf (saturatingSubValue a b) unit =
      Word.satSub (quantityOf a unit) (quantityOf b unit) := by
  rw [saturatingSubValue_of_normal h]
  cases unit with
  | lovelace => rfl
  | asset p n => exact quantity_saturatingSubAssets a.assets b.assets p n

lemma normal_saturatingSubValue (h : a.assets.Normal) (b : Value UInt64) :
    (saturatingSubValue a b).assets.Normal := by
  rw [saturatingSubValue_of_normal h]
  exact normal_saturatingSubAssets h b.assets

end Remaining

/-! ### What is taken -/

lemma swapRemove_perm {α : Type} (l : List α) (i : Fin l.length) :
    (l.get i :: swapRemove l i).Perm l := by
  have hne : l ≠ [] := List.ne_nil_of_length_pos i.pos
  obtain ⟨i, hi⟩ := i
  obtain ⟨init, x, rfl⟩ := (List.eq_nil_or_concat' l).resolve_left hne
  rw [swapRemove, List.getLast_append_of_ne_nil _ (by simp), List.getLast_singleton]
  rw [List.length_append, List.length_singleton] at hi
  by_cases hlt : i < init.length
  · rw [List.set_append_left _ _ hlt, List.dropLast_concat, List.get_eq_getElem,
      List.getElem_append_left hlt, List.set_eq_take_append_cons_drop, if_pos hlt]
    -- the element and the last one change places
    have hsplit : init.take i ++ init[i] :: init.drop (i + 1) = init := by simp
    have hinit : List.Perm (init[i] :: (init.take i ++ init.drop (i + 1))) init :=
      List.perm_middle.symm.trans (.of_eq hsplit)
    calc
      List.Perm _ (init[i] :: x :: (init.take i ++ init.drop (i + 1))) :=
        .cons _ List.perm_middle
      List.Perm _ (x :: init[i] :: (init.take i ++ init.drop (i + 1))) := .swap _ _ _
      List.Perm _ (x :: init) := .cons _ hinit
      List.Perm _ (init ++ [x]) := (List.perm_append_singleton x init).symm
  · obtain rfl : i = init.length := by omega
    rw [List.set_append_right _ _ le_rfl, Nat.sub_self, List.set_cons_zero, List.dropLast_concat]
    simpa using (List.perm_append_singleton x init).symm

/-- The value of the output that an input spends. -/
def valueAt (utxos : OrdMap OutputReference (Value UInt64)) (input : OutputReference) :
    Value UInt64 :=
  utxos[input]?.getD (new 0)

/-- The exact total of the wallet. -/
def walletTotal (utxos : OrdMap OutputReference (Value UInt64)) (unit : Value.Unit) : ℕ :=
  totalOf Prod.snd utxos.toList unit

/-- What the outputs of a wallet hold. -/
def outputsOf (utxos : OrdMap OutputReference (Value UInt64)) : List (Value UInt64) :=
  utxos.toList.map Prod.snd

/-- What outputs leave of the amount. -/
def leaves (amount : Value UInt64) (outputs : List (Value UInt64)) : Value UInt64 :=
  outputs.foldl saturatingSubValue amount

/-- The outputs are not enough of some unit. -/
def Short (amount : Value UInt64) (outputs : List (Value UInt64)) : Prop :=
  ∃ unit, totalOf id outputs unit < (quantityOf amount unit).toNat

/-- The value holds some of an asset that the amount asks for. -/
def HoldsAsked (amount value : Value UInt64) : Prop :=
  ∃ p n, 0 < amount.assets.quantity p n ∧ 0 < value.assets.quantity p n

/-- Each of the outputs covers as much of what those before it leave of the amount as any that comes
after it, among the outputs or in the rest. -/
def Ranked (amount : Value UInt64) (outputs rest : List (Value UInt64)) : Prop :=
  ∀ before x after, outputs = before ++ x :: after → ∀ y ∈ after ++ rest,
    coverage y (leaves amount before) ≤ coverage x (leaves amount before)

/-- However outputs are ranked until a last one makes up the amount, those that hold some of an
asset that is asked for are needed for it. -/
def NoneSuperfluous (amount : Value UInt64) (outputs : List (Value UInt64)) : Prop :=
  ∀ picks last rest, (picks ++ last :: rest).Perm outputs → Ranked amount (picks ++ [last]) rest →
    Short amount picks → ∀ before x after, picks = before ++ x :: after → HoldsAsked amount x →
      Short amount (before ++ after ++ [last])

section Ranking

variable {amount x : Value UInt64} {outputs outputs' rest rest' : List (Value UInt64)}

/-- A list with one at its end is split before the end, or at it. -/
lemma concat_eq_append_cons {α : Type} {l before after : List α} {x y : α}
    (h : l ++ [y] = before ++ x :: after) :
    (before = l ∧ x = y ∧ after = []) ∨ ∃ mid, after = mid ++ [y] ∧ l = before ++ x :: mid := by
  rcases List.eq_nil_or_concat' after with rfl | ⟨mid, z, rfl⟩
  · obtain ⟨rfl, hx⟩ := List.append_inj' h rfl
    cases hx
    exact Or.inl ⟨rfl, rfl, rfl⟩
  · rw [← List.cons_append, ← List.append_assoc] at h
    obtain ⟨rfl, hy⟩ := List.append_inj' h rfl
    cases hy
    exact Or.inr ⟨mid, rfl, rfl⟩

lemma leaves_concat (amount : Value UInt64) (outputs : List (Value UInt64)) (x : Value UInt64) :
    leaves amount (outputs ++ [x]) = saturatingSubValue (leaves amount outputs) x := by
  rw [leaves, List.foldl_append]
  rfl

lemma Short.of_subperm (h : Short amount outputs) (hsub : outputs'.Subperm outputs) :
    Short amount outputs' := by
  obtain ⟨unit, hlt⟩ := h
  exact ⟨unit, (totalOf_le_of_subperm hsub unit).trans_lt hlt⟩

/-- The next one is ranked, too, when it covers as much as any that is left. -/
lemma Ranked.concat (h : Ranked amount outputs rest) (hrest : (x :: rest').Perm rest)
    (hx : ∀ y ∈ rest', coverage y (leaves amount outputs) ≤ coverage x (leaves amount outputs)) :
    Ranked amount (outputs ++ [x]) rest' := by
  intro before z after hsplit y hy
  rcases concat_eq_append_cons hsplit with ⟨rfl, rfl, rfl⟩ | ⟨mid, rfl, houtputs⟩
  · exact hx y hy
  · refine h before z mid houtputs y ?_
    rw [List.append_assoc, List.singleton_append, List.mem_append, hrest.mem_iff] at hy
    exact List.mem_append.mpr hy

lemma Ranked.of_cons (h : Ranked amount (x :: outputs) rest) :
    Ranked (saturatingSubValue amount x) outputs rest :=
  fun before z after hsplit => h (x :: before) z after (congrArg (x :: ·) hsplit)

end Ranking

/-- The states of the loop. -/
inductive Reached (utxos : OrdMap OutputReference (Value UInt64)) (amount : Value UInt64) :
    Selecting → Prop
  | start : Reached utxos amount (.start utxos amount)
  | take {s : Selecting} {i : Fin s.available.length} (h : Reached utxos amount s)
      (hremaining : s.remaining.isEmpty = false) (hbest : s.best = some i) :
      Reached utxos amount (s.take i)

section Runs

variable {utxos : OrdMap OutputReference (Value UInt64)} {amount : Value UInt64} {s : Selecting}
  {i : Fin s.available.length} {picks : List (OutputReference × Value UInt64)}
  {inputs : List OutputReference}

/-- What is taken and what is available is the wallet, and what is taken falls short of the amount
by what remains. -/
structure Selecting.Sound (utxos : OrdMap OutputReference (Value UInt64)) (amount : Value UInt64)
    (s : Selecting) (picks : List (OutputReference × Value UInt64)) : Prop where
  selected : s.selected = picks.map Prod.fst
  perm : (picks ++ s.available).Perm utxos.toList
  normal : s.remaining.assets.Normal
  remaining : ∀ unit, (quantityOf s.remaining unit).toNat =
    (quantityOf amount unit).toNat - totalOf Prod.snd picks unit
  leaves : s.remaining = leaves amount (picks.map Prod.snd)

namespace Selecting.Sound

lemma start (hamount : amount.assets.Normal) :
    (Selecting.start utxos amount).Sound utxos amount [] where
  selected := rfl
  perm := List.Perm.refl _
  normal := hamount
  remaining unit := by simp [Selecting.start]
  leaves := rfl

lemma take (h : s.Sound utxos amount picks) (i : Fin s.available.length) :
    (s.take i).Sound utxos amount (picks ++ [s.available.get i]) where
  selected := by simp [Selecting.take, h.selected]
  perm := by
    rw [List.append_assoc, List.singleton_append]
    exact ((swapRemove_perm s.available i).append_left picks).trans h.perm
  normal := normal_saturatingSubValue h.normal _
  remaining unit := by
    rw [Selecting.take, quantityOf_saturatingSubValue h.normal, Word.toNat_satSub, h.remaining]
    simp only [totalOf_append, totalOf_cons, totalOf_nil, Nat.add_zero]
    omega
  leaves := by rw [List.map_append, List.map_singleton, leaves_concat, ← h.leaves, Selecting.take]

/-- Something remains as long as what is taken falls short of the amount. -/
lemma isEmpty_iff (h : s.Sound utxos amount picks) :
    s.remaining.isEmpty ↔
      ∀ unit, (quantityOf amount unit).toNat ≤ totalOf Prod.snd picks unit := by
  rw [Value.isEmpty_iff h.normal]
  refine forall_congr' fun unit => ?_
  rw [← UInt64.toNat_inj, h.remaining, UInt64.toNat_zero]
  omega

lemma exists_short (h : s.Sound utxos amount picks) (hremaining : s.remaining.isEmpty = false) :
    ∃ unit, totalOf Prod.snd picks unit < (quantityOf amount unit).toNat := by
  by_contra hall
  push Not at hall
  rw [h.isEmpty_iff.mpr hall] at hremaining
  cases hremaining

lemma short (h : s.Sound utxos amount picks) (hremaining : s.remaining.isEmpty = false) :
    Short amount (picks.map Prod.snd) := by
  obtain ⟨unit, hlt⟩ := h.exists_short hremaining
  exact ⟨unit, by rwa [totalOf_map]⟩

/-- What is taken are outputs of the wallet. -/
lemma mem_toList (h : s.Sound utxos amount picks) (x : OutputReference × Value UInt64)
    (hx : x ∈ picks) : x ∈ utxos.toList :=
  h.perm.mem_iff.mp (List.mem_append_left _ hx)

lemma nodup_append (h : s.Sound utxos amount picks) :
    ((picks ++ s.available).map Prod.fst).Nodup :=
  (h.perm.map Prod.fst).nodup_iff.mpr (OrdMap.nodup_keys utxos)

lemma nodup (h : s.Sound utxos amount picks) : s.selected.Nodup := by
  rw [h.selected]
  have hnodup := h.nodup_append
  rw [List.map_append] at hnodup
  exact (List.nodup_append.mp hnodup).1

/-- What is taken are outputs of the wallet. -/
lemma getElem? (h : s.Sound utxos amount picks) {x : OutputReference × Value UInt64}
    (hx : x ∈ picks ++ s.available) : utxos[x.1]? = some x.2 :=
  OrdMap.mem_toList_iff.mp (h.perm.mem_iff.mp hx)

lemma totalOf_append_le (h : s.Sound utxos amount picks) (unit : Value.Unit) :
    totalOf Prod.snd picks unit + totalOf Prod.snd s.available unit = walletTotal utxos unit := by
  rw [← totalOf_append, walletTotal, totalOf, totalOf]
  exact (h.perm.map _).sum_eq

end Selecting.Sound

namespace Selecting

lemma run_of_isEmpty (h : s.remaining.isEmpty = true) : s.run = .ok s.selected := by
  rw [run, if_pos h]

lemma run_of_best (h : s.remaining.isEmpty = false) (hbest : s.best = some i) :
    s.run = (s.take i).run := by
  rw [run, if_neg (by simp [h]), hbest]

lemma run_of_none (h : s.remaining.isEmpty = false) (hbest : s.best = none) :
    s.run = .error (.notCovered s.remaining) := by
  rw [run, if_neg (by simp [h]), hbest]

lemma available_of_best_eq_none (h : s.best = none) : s.available = [] := by
  by_contra hne
  have hrange : List.finRange s.available.length ≠ [] := by
    rw [← List.length_pos_iff, List.length_finRange]
    exact List.length_pos_iff.mpr hne
  obtain ⟨i, hi⟩ := exists_maxByKey
    (fun i => coverage (s.available.get i).2 s.remaining) hrange
  rw [best, hi] at h
  cases h

/-- None of what is available covers more than the best one. -/
lemma coverage_le_of_best (h : s.best = some i) {x : OutputReference × Value UInt64}
    (hx : x ∈ s.available) :
    coverage x.2 s.remaining ≤ coverage (s.available.get i).2 s.remaining := by
  obtain ⟨j, rfl⟩ := List.mem_iff_get.mp hx
  exact le_of_maxByKey h (List.mem_finRange j)

end Selecting

lemma exists_sound (hamount : amount.assets.Normal) (h : Reached utxos amount s) :
    ∃ picks, s.Sound utxos amount picks := by
  induction h with
  | start => exact ⟨[], .start hamount⟩
  | take _ _ _ ih =>
    obtain ⟨picks, hsound⟩ := ih
    exact ⟨_, hsound.take _⟩

/-- From each of its states the loop comes to the same end. -/
lemma select_eq_run (h : Reached utxos amount s) : select utxos amount = s.run := by
  induction h with
  | start => rfl
  | take _ hremaining hbest ih => rw [ih, Selecting.run_of_best hremaining hbest]

/-- The loop ends in a state in which nothing remains, or nothing is available. -/
lemma exists_last (h : Reached utxos amount s) :
    ∃ s', Reached utxos amount s' ∧
      (s'.remaining.isEmpty = true ∨ s'.remaining.isEmpty = false ∧ s'.best = none) := by
  induction s using Selecting.run.induct with
  | case1 s hempty => exact ⟨s, h, Or.inl hempty⟩
  | case2 s hempty hbest => exact ⟨s, h, Or.inr ⟨by simpa using hempty, hbest⟩⟩
  | case3 s hempty i hbest ih => exact ih (h.take (by simpa using hempty) hbest)

/-- A selection comes from a state in which nothing remains. -/
lemma exists_of_select (hselect : select utxos amount = .ok inputs) :
    ∃ s, Reached utxos amount s ∧ s.remaining.isEmpty = true ∧ s.selected = inputs := by
  obtain ⟨s, h, hempty | ⟨hremaining, hbest⟩⟩ := exists_last (@Reached.start utxos amount)
  · rw [select_eq_run h, Selecting.run_of_isEmpty hempty] at hselect
    exact ⟨s, h, hempty, Except.ok.inj hselect⟩
  · rw [select_eq_run h, Selecting.run_of_none hremaining hbest] at hselect
    cases hselect

/-! ### What is taken for its lovelace -/

/-- What holds nothing that is asked for was taken for its lovelace: when no assets remained, and no
more lovelace was to be had from another one, as long as some remains. -/
def Descending (amount : Value UInt64) (s : Selecting)
    (picks : List (OutputReference × Value UInt64)) : Prop :=
  ∀ x ∈ picks, ¬HoldsAsked amount x.2 →
    (∀ p n, s.remaining.assets.quantity p n = 0) ∧
      (s.remaining.lovelace = 0 ∨ ∀ y ∈ s.available, y.2.lovelace ≤ x.2.lovelace)

/-- The number of hits of what holds some of what remains is positive. -/
lemma coverage_fst_eq_zero_iff {candidate remaining : Value UInt64} :
    (ofLex (coverage candidate remaining)).1 = 0 ↔
      ∀ p n, 0 < remaining.assets.quantity p n → candidate.assets.quantity p n = 0 := by
  rw [coverage, ofLex_toLex, List.countP_eq_zero]
  simp only [Bool.and_eq_true, decide_eq_true_eq, not_and, not_lt]
  constructor
  · intro h p n hpos
    exact UInt64.le_zero_iff.mp (h _ (mem_entries_of_ne_zero hpos.ne') hpos)
  · rintro h ⟨⟨p, n⟩, q⟩ hmem hpos
    rw [← quantity_of_mem_entries hmem] at hpos
    exact (h p n hpos).le

/-- Where the best one holds nothing that is asked for, nothing else has more lovelace to give. -/
lemma of_best_of_not_holdsAsked (hsound : s.Sound utxos amount picks) (hbest : s.best = some i)
    (hnot : ¬HoldsAsked amount (s.available.get i).2) {y : OutputReference × Value UInt64}
    (hy : y ∈ s.available) :
    (∀ p n, 0 < s.remaining.assets.quantity p n → y.2.assets.quantity p n = 0) ∧
      min y.2.lovelace s.remaining.lovelace ≤
        min (s.available.get i).2.lovelace s.remaining.lovelace := by
  have hzero : (ofLex (coverage (s.available.get i).2 s.remaining)).1 = 0 := by
    refine coverage_fst_eq_zero_iff.mpr fun p n hpos => ?_
    -- what remains of an asset is asked for
    have hasked := hsound.remaining (.asset p n)
    rw [UInt64.lt_iff_toNat_lt, UInt64.toNat_zero] at hpos
    by_contra hne
    refine hnot ⟨p, n, ?_, lt_of_le_of_ne UInt64.zero_le (Ne.symm hne)⟩
    rw [UInt64.lt_iff_toNat_lt, UInt64.toNat_zero]
    simp only [quantityOf] at hasked
    omega
  rcases Prod.Lex.le_iff.mp (Selecting.coverage_le_of_best hbest hy) with hlt | ⟨heq, hle⟩
  · rw [hzero] at hlt
    exact absurd hlt (Nat.not_lt_zero _)
  · exact ⟨coverage_fst_eq_zero_iff.mp (heq.trans hzero), hle⟩

lemma mem_of_mem_swapRemove {y : OutputReference × Value UInt64}
    (hy : y ∈ (s.take i).available) : y ∈ s.available :=
  (swapRemove_perm s.available i).mem_iff.mp (List.mem_cons_of_mem _ hy)

/-- An asset of which nothing remains is not asked for again. -/
lemma quantity_take_eq_zero (hsound : s.Sound utxos amount picks)
    (h : ∀ p n, s.remaining.assets.quantity p n = 0) (p : BytesN 28) (n : Bytes) :
    (s.take i).remaining.assets.quantity p n = 0 := by
  have hremaining := quantityOf_saturatingSubValue hsound.normal (s.available.get i).2 (.asset p n)
  simp only [quantityOf, h, Word.zero_satSub] at hremaining
  exact hremaining

/-- Where the best one holds nothing that is asked for, no asset remains, as the wallet covers the
amount. -/
lemma quantity_eq_zero_of_best
    (hcovers : ∀ unit, (quantityOf amount unit).toNat ≤ walletTotal utxos unit)
    (hsound : s.Sound utxos amount picks) (hbest : s.best = some i)
    (hnot : ¬HoldsAsked amount (s.available.get i).2) (p : BytesN 28) (n : Bytes) :
    s.remaining.assets.quantity p n = 0 := by
  by_contra hne
  have hpos : 0 < s.remaining.assets.quantity p n := lt_of_le_of_ne UInt64.zero_le (Ne.symm hne)
  have hnone : totalOf Prod.snd s.available (.asset p n) = 0 := by
    refine List.sum_eq_zero fun q hq => ?_
    obtain ⟨y, hy, rfl⟩ := List.mem_map.mp hq
    rw [quantityOf, (of_best_of_not_holdsAsked hsound hbest hnot hy).1 p n hpos]
    rfl
  have htotal := hsound.totalOf_append_le (.asset p n)
  have hle := hcovers (.asset p n)
  have hasked := hsound.remaining (.asset p n)
  rw [UInt64.lt_iff_toNat_lt, UInt64.toNat_zero] at hpos
  simp only [quantityOf] at hasked hle
  omega

lemma Descending.take
    (hcovers : ∀ unit, (quantityOf amount unit).toNat ≤ walletTotal utxos unit)
    (hsound : s.Sound utxos amount picks) (hbest : s.best = some i)
    (h : Descending amount s picks) :
    Descending amount (s.take i) (picks ++ [s.available.get i]) := by
  have hlovelace : (s.take i).remaining.lovelace =
      Word.satSub s.remaining.lovelace (s.available.get i).2.lovelace :=
    quantityOf_saturatingSubValue hsound.normal (s.available.get i).2 .lovelace
  intro x hx hnot
  rcases List.mem_append.mp hx with hx | hx
  · obtain ⟨hassets, hleft⟩ := h x hx hnot
    refine ⟨quantity_take_eq_zero hsound hassets, ?_⟩
    rcases hleft with hzero | hle
    · rw [hzero, Word.zero_satSub] at hlovelace
      exact Or.inl hlovelace
    · exact Or.inr fun y hy => hle y (mem_of_mem_swapRemove hy)
  · obtain rfl := List.mem_singleton.mp hx
    refine ⟨quantity_take_eq_zero hsound (quantity_eq_zero_of_best hcovers hsound hbest hnot), ?_⟩
    by_cases hle : s.remaining.lovelace ≤ (s.available.get i).2.lovelace
    · left
      rw [UInt64.le_iff_toNat_le] at hle
      rw [hlovelace, ← UInt64.toNat_inj, Word.toNat_satSub, UInt64.toNat_zero]
      omega
    · right
      intro y hy
      have hmin := (of_best_of_not_holdsAsked hsound hbest hnot (mem_of_mem_swapRemove hy)).2
      rw [min_eq_left (not_le.mp hle).le] at hmin
      rcases min_le_iff.mp hmin with h | h
      · exact h
      · exact absurd h hle

/-- What the loop has taken is sound, was not taken for its lovelace in vain, and is ranked. -/
lemma exists_ranked (hamount : amount.assets.Normal)
    (hcovers : ∀ unit, (quantityOf amount unit).toNat ≤ walletTotal utxos unit)
    (h : Reached utxos amount s) :
    ∃ picks, s.Sound utxos amount picks ∧ Descending amount s picks ∧
      Ranked amount (picks.map Prod.snd) (s.available.map Prod.snd) := by
  induction h with
  | start => exact ⟨[], .start hamount, by simp [Descending], fun before x after h => by simp at h⟩
  | @take s i _ _ hbest ih =>
    obtain ⟨picks, hsound, hdescending, hranked⟩ := ih
    refine ⟨_, hsound.take i, hdescending.take hcovers hsound hbest, ?_⟩
    rw [List.map_append, List.map_singleton]
    refine hranked.concat ((swapRemove_perm s.available i).map Prod.snd) fun y hy => ?_
    obtain ⟨x, hx, rfl⟩ := List.mem_map.mp hy
    rw [← hsound.leaves]
    exact Selecting.coverage_le_of_best hbest (mem_of_mem_swapRemove hx)

/-! ### What is returned -/

/-- The exact total of what inputs spend. -/
def inputTotal (utxos : OrdMap OutputReference (Value UInt64)) (inputs : List OutputReference)
    (unit : Value.Unit) : ℕ :=
  totalOf (valueAt utxos) inputs unit

/-- Inputs are returned where the wallet covers the amount.  They are distinct, cover the amount,
and do not without any one of them. -/
structure ExactSelect (utxos : OrdMap OutputReference (Value UInt64)) (amount : Value UInt64) :
    Prop where
  isOk_iff : (∃ inputs, select utxos amount = .ok inputs) ↔
    ∀ unit, (quantityOf amount unit).toNat ≤ walletTotal utxos unit
  nodup : ∀ inputs, select utxos amount = .ok inputs → inputs.Nodup
  mem : ∀ inputs, select utxos amount = .ok inputs → ∀ input ∈ inputs, input ∈ utxos
  covers : ∀ inputs, select utxos amount = .ok inputs →
    ∀ unit, (quantityOf amount unit).toNat ≤ inputTotal utxos inputs unit
  minimal : ∀ inputs, select utxos amount = .ok inputs →
    ∀ before input after, inputs = before ++ input :: after →
      ∃ unit, inputTotal utxos (before ++ after) unit < (quantityOf amount unit).toNat

lemma inputTotal_map_fst {l : List (OutputReference × Value UInt64)}
    (hl : ∀ x ∈ l, x ∈ utxos.toList) (unit : Value.Unit) :
    inputTotal utxos (l.map Prod.fst) unit = totalOf id (l.map Prod.snd) unit := by
  rw [inputTotal, totalOf, totalOf, List.map_map, List.map_map]
  refine congrArg List.sum (List.map_congr_left fun x hx => ?_)
  rw [Function.comp_apply, valueAt, OrdMap.mem_toList_iff.mp (hl x hx), Option.getD_some]
  rfl

/-- What the values of outputs fall short of, their inputs do. -/
lemma exists_lt_of_short {l : List (OutputReference × Value UInt64)}
    (hl : ∀ x ∈ l, x ∈ utxos.toList)
    (h : ∀ before x after, l = before ++ x :: after →
      Short amount ((before ++ after).map Prod.snd))
    {before after : List OutputReference} {input : OutputReference}
    (hsplit : l.map Prod.fst = before ++ input :: after) :
    ∃ unit, inputTotal utxos (before ++ after) unit < (quantityOf amount unit).toNat := by
  obtain ⟨before, rest, rfl, rfl, hrest⟩ := List.map_eq_append_iff.mp hsplit
  obtain ⟨x, after, rfl, rfl, rfl⟩ := List.map_eq_cons_iff.mp hrest
  obtain ⟨unit, hlt⟩ := h before x after rfl
  refine ⟨unit, ?_⟩
  rw [← List.map_append, inputTotal_map_fst fun y hy => hl y ?_]
  · exact hlt
  · rw [List.mem_append] at hy
    simp only [List.mem_append, List.mem_cons]
    tauto

/-- The loop ends well where the wallet covers the amount. -/
lemma exists_select_iff (hamount : amount.assets.Normal) :
    (∃ inputs, select utxos amount = .ok inputs) ↔
      ∀ unit, (quantityOf amount unit).toNat ≤ walletTotal utxos unit := by
  constructor
  · rintro ⟨inputs, hselect⟩ unit
    obtain ⟨s, h, hempty, -⟩ := exists_of_select hselect
    obtain ⟨picks, hsound⟩ := exists_sound hamount h
    have hle := hsound.isEmpty_iff.mp hempty unit
    have htotal := hsound.totalOf_append_le unit
    omega
  · intro hcovers
    obtain ⟨s, h, hempty | ⟨hremaining, hbest⟩⟩ := exists_last (@Reached.start utxos amount)
    · exact ⟨_, (select_eq_run h).trans (Selecting.run_of_isEmpty hempty)⟩
    · -- with nothing left to take, what is taken is the wallet
      obtain ⟨picks, hsound⟩ := exists_sound hamount h
      obtain ⟨unit, hlt⟩ := hsound.exists_short hremaining
      have htotal := hsound.totalOf_append_le unit
      rw [Selecting.available_of_best_eq_none hbest, totalOf_nil] at htotal
      exact absurd (hcovers unit) (by omega)

/-- What was taken for its lovelace is needed for its lovelace: the last one has no more. -/
lemma short_of_descending (hsound : s.Sound utxos amount picks)
    (hdescending : Descending amount s picks) (hremaining : s.remaining.isEmpty = false)
    {before after : List (OutputReference × Value UInt64)} {x : OutputReference × Value UInt64}
    (hsplit : picks = before ++ x :: after) (hnot : ¬HoldsAsked amount x.2)
    (i : Fin s.available.length) :
    Short amount ((before ++ after ++ [s.available.get i]).map Prod.snd) := by
  obtain ⟨hassets, hlovelace⟩ := hdescending x (by simp [hsplit]) hnot
  have hpos : s.remaining.lovelace ≠ 0 := by
    intro hzero
    have hempty : s.remaining.isEmpty = true := by
      refine (Value.isEmpty_iff hsound.normal).mpr fun unit => ?_
      cases unit with
      | lovelace => exact hzero
      | asset p n => exact hassets p n
    rw [hempty] at hremaining
    cases hremaining
  have hle := hlovelace.resolve_left hpos _ (List.get_mem s.available i)
  have hshort := hsound.remaining .lovelace
  rw [hsplit, totalOf_append, totalOf_cons] at hshort
  rw [UInt64.le_iff_toNat_le] at hle
  rw [Ne, ← UInt64.toNat_inj, UInt64.toNat_zero] at hpos
  refine ⟨.lovelace, ?_⟩
  rw [totalOf_map, totalOf_append, totalOf_append, totalOf_cons, totalOf_nil]
  simp only [quantityOf] at hshort ⊢
  omega

/-- Each output is needed when the next one is the last. -/
lemma short_of_noneSuperfluous (h : NoneSuperfluous amount (outputsOf utxos))
    (hsound : s.Sound utxos amount picks) (hdescending : Descending amount s picks)
    (hranked : Ranked amount (picks.map Prod.snd) (s.available.map Prod.snd))
    (hremaining : s.remaining.isEmpty = false) (hbest : s.best = some i)
    {before after : List (OutputReference × Value UInt64)} {x : OutputReference × Value UInt64}
    (hsplit : picks ++ [s.available.get i] = before ++ x :: after) :
    Short amount ((before ++ after).map Prod.snd) := by
  rcases concat_eq_append_cons hsplit with ⟨rfl, -, rfl⟩ | ⟨mid, rfl, hpicks⟩
  · -- something remained before the last one
    rw [List.append_nil]
    exact hsound.short hremaining
  · rw [← List.append_assoc]
    by_cases hasked : HoldsAsked amount x.2
    · have hrest := (swapRemove_perm s.available i).map Prod.snd
      rw [List.map_cons] at hrest
      have hperm : (picks.map Prod.snd ++ (s.available.get i).2 ::
          (swapRemove s.available i).map Prod.snd).Perm (outputsOf utxos) := by
        refine (hrest.append_left _).trans ?_
        rw [← List.map_append]
        exact hsound.perm.map Prod.snd
      have hnext : Ranked amount (picks.map Prod.snd ++ [(s.available.get i).2])
          ((swapRemove s.available i).map Prod.snd) := by
        refine hranked.concat hrest fun y hy => ?_
        obtain ⟨z, hz, rfl⟩ := List.mem_map.mp hy
        rw [← hsound.leaves]
        exact Selecting.coverage_le_of_best hbest (mem_of_mem_swapRemove hz)
      have hneeded := h _ _ _ hperm hnext (hsound.short hremaining) (before.map Prod.snd) x.2
        (mid.map Prod.snd) (by simp [hpicks]) hasked
      simpa using hneeded
    · exact short_of_descending hsound hdescending hremaining hpicks hasked i

lemma exactSelect_of_noneSuperfluous (hamount : amount.assets.Normal)
    (h : NoneSuperfluous amount (outputsOf utxos)) : ExactSelect utxos amount := by
  refine ⟨exists_select_iff hamount, fun inputs hselect => ?_, fun inputs hselect => ?_,
    fun inputs hselect unit => ?_, fun inputs hselect before input after hsplit => ?_⟩
  all_goals
    have hcovers := (exists_select_iff hamount).mp ⟨inputs, hselect⟩
    obtain ⟨s, hs, hempty, rfl⟩ := exists_of_select hselect
    obtain ⟨picks, hsound⟩ := exists_sound hamount hs
  · exact hsound.nodup
  · intro input hinput
    rw [hsound.selected] at hinput
    obtain ⟨x, hx, rfl⟩ := List.mem_map.mp hinput
    rw [Std.ExtTreeMap.mem_iff_isSome_getElem?, hsound.getElem? (List.mem_append_left _ hx)]
    rfl
  · rw [hsound.selected, inputTotal_map_fst hsound.mem_toList, totalOf_map]
    exact hsound.isEmpty_iff.mp hempty unit
  · cases hs with
    | start => simp [Selecting.start] at hsplit
    | @take s i hs hremaining hbest =>
      obtain ⟨picks, hsound, hdescending, hranked⟩ := exists_ranked hamount hcovers hs
      have hnext := hsound.take i
      rw [hnext.selected] at hsplit
      exact exists_lt_of_short hnext.mem_toList (fun before x after hsplit =>
        short_of_noneSuperfluous h hsound hdescending hranked hremaining hbest hsplit) hsplit

/-! ### Wallets in which ranked outputs are taken -/

lemma noneSuperfluous_of_needed {outputs : List (Value UInt64)}
    (h : ∀ before x after, outputs = before ++ x :: after → HoldsAsked amount x →
      Short amount (before ++ after)) : NoneSuperfluous amount outputs := by
  rintro picks last rest hperm - - before x after rfl hasked
  obtain ⟨before', after', hsplit⟩ := List.append_of_mem (hperm.subset (show x ∈ _ by simp))
  refine (h before' x after' hsplit hasked).of_subperm ?_
  rw [hsplit] at hperm
  have hmiddle : (x :: (before ++ after ++ last :: rest)).Perm (x :: (before' ++ after')) := by
    refine List.Perm.trans ?_ (hperm.trans List.perm_middle)
    rw [List.append_assoc, List.append_assoc, List.cons_append]
    exact List.perm_middle.symm
  refine List.Subperm.trans ?_ (List.Perm.cons_inv hmiddle).subperm
  refine (List.Sublist.append_left ?_ _).subperm
  exact (List.nil_sublist rest).cons_cons last

/-- Where every output that holds some of an asset asked for is needed in the wallet, none is
superfluous. -/
theorem exactSelect_of_needed (hamount : amount.assets.Normal)
    (h : ∀ before x after, outputsOf utxos = before ++ x :: after → HoldsAsked amount x →
      Short amount (before ++ after)) : ExactSelect utxos amount :=
  exactSelect_of_noneSuperfluous hamount (noneSuperfluous_of_needed h)

/-- For lovelace alone, none is superfluous. -/
theorem exactSelect_of_lovelace (hamount : amount.assets.Normal)
    (h : ∀ p n, amount.assets.quantity p n = 0) : ExactSelect utxos amount := by
  refine exactSelect_of_needed hamount fun before x after _ hasked => ?_
  obtain ⟨p, n, hpos, -⟩ := hasked
  rw [h] at hpos
  exact absurd hpos (lt_irrefl _)

end Runs

/-! ### Two outputs of an asset -/

/-- An output of one transaction. -/
def sampleInput (outputIndex : ℕ) : OutputReference := ⟨List.replicate 32 1, outputIndex⟩

end Konduit.Tx2.Fuel
