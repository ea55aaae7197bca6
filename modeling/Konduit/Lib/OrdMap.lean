import Mathlib.Algebra.BigOperators.Fin
import Mathlib.Data.List.Basic
import Mathlib.Tactic.Common
import Std.Data.ExtTreeMap

/-!
# Loops over ordered maps

A map that is kept in the order of its keys is what its entries are.  Two loops go through the
entries of one map and change another in place: one changes whatever it finds (`update`), the other
stops where an entry is missing or refused, and leaves what it has done so far (`sweep`).
-/

namespace Lib

/-- A map in the order of its keys. -/
abbrev OrdMap (κ ν : Type) [Ord κ] := Std.ExtTreeMap κ ν compare

namespace OrdMap

variable {κ ν ω ε : Type} [Ord κ] [Std.TransOrd κ] [Std.LawfulEqOrd κ]

lemma mem_toList_iff {m : OrdMap κ ν} {k : κ} {v : ν} : (k, v) ∈ m.toList ↔ m[k]? = some v :=
  Std.ExtTreeMap.mem_toList_iff_getElem?_eq_some

/-- The keys are distinct. -/
lemma nodup_keys (m : OrdMap κ ν) : (m.toList.map Prod.fst).Nodup := by
  refine List.pairwise_map.mpr (Std.ExtTreeMap.distinct_keys_toList.imp ?_)
  intro a b hne heq
  exact hne (Std.LawfulEqCmp.compare_eq_iff_eq.mpr heq)

/-- What is not found is none of the keys. -/
lemma notMem_keys_of_getElem? {m : OrdMap κ ν} {k : κ} (h : m[k]? = none) :
    k ∉ m.toList.map Prod.fst := by
  intro hmem
  obtain ⟨⟨_, v⟩, hv, rfl⟩ := List.mem_map.mp hmem
  rw [mem_toList_iff.mp hv] at h
  cases h

lemma getElem?_insert_of_ne {m : OrdMap κ ν} {k k' : κ} (h : k ≠ k') (v : ν) :
    (m.insert k v)[k']? = m[k']? := by
  rw [Std.ExtTreeMap.getElem?_insert, if_neg fun heq => h (Std.LawfulEqCmp.eq_of_compare heq)]

lemma getElem?_erase_of_ne {m : OrdMap κ ν} {k k' : κ} (h : k ≠ k') :
    (m.erase k)[k']? = m[k']? := by
  rw [Std.ExtTreeMap.getElem?_erase, if_neg fun heq => h (Std.LawfulEqCmp.eq_of_compare heq)]

lemma getElem?_alter_of_ne {m : OrdMap κ ν} {k k' : κ} (h : k ≠ k') (f : Option ν → Option ν) :
    (m.alter k f)[k']? = m[k']? := by
  rw [Std.ExtTreeMap.getElem?_alter, if_neg fun heq => h (Std.LawfulEqCmp.eq_of_compare heq)]

lemma mem_keys_iff {m : OrdMap κ ν} {k : κ} : k ∈ m.toList.map Prod.fst ↔ m.contains k := by
  rw [Std.ExtTreeMap.map_fst_toList_eq_keys, Std.ExtTreeMap.mem_keys,
    Std.ExtTreeMap.contains_iff_mem]

/-- The keys are in their order, so a list in this order that has the same ones is theirs. -/
lemma keys_eq {m : OrdMap κ ν} {l : List κ} (hl : l.Pairwise fun a b => compare a b = .lt)
    (h : ∀ k, k ∈ l ↔ m.contains k) : m.toList.map Prod.fst = l := by
  have hirrefl : Std.Irrefl fun a b : κ => compare a b = .lt :=
    ⟨fun a => by rw [@Std.ReflCmp.compare_self _ compare]; exact fun h => nomatch h⟩
  have hantisymm : Std.Antisymm fun a b : κ => compare a b = .lt := by
    constructor
    intro a b hab hba
    rw [@Std.OrientedCmp.eq_swap _ compare, hab] at hba
    cases hba
  have hkeys : (m.toList.map Prod.fst).Pairwise fun a b => compare a b = .lt := by
    rw [Std.ExtTreeMap.map_fst_toList_eq_keys]
    exact Std.ExtTreeMap.ordered_keys
  refine hkeys.eq_of_mem_iff hl fun k => ?_
  rw [mem_keys_iff, h]

section Insert

variable {l : List (κ × ν)} {m : OrdMap κ ν} {k : κ} {v : ν}

lemma getElem?_foldl_insert_of_notMem (h : k ∉ l.map Prod.fst) :
    (l.foldl (fun m x => m.insert x.1 x.2) m)[k]? = m[k]? := by
  induction l generalizing m with
  | nil => rfl
  | cons x l ih =>
    rw [List.map_cons, List.mem_cons, not_or] at h
    rw [List.foldl_cons, ih h.2, getElem?_insert_of_ne (Ne.symm h.1)]

/-- An entry of which there is no other one with its key is found. -/
lemma getElem?_foldl_insert (hl : (l.map Prod.fst).Nodup) (h : (k, v) ∈ l) :
    (l.foldl (fun m x => m.insert x.1 x.2) m)[k]? = some v := by
  induction l generalizing m with
  | nil => cases h
  | cons x l ih =>
    rw [List.map_cons, List.nodup_cons] at hl
    rw [List.foldl_cons]
    rcases List.mem_cons.mp h with rfl | h
    · rw [getElem?_foldl_insert_of_notMem hl.1, Std.ExtTreeMap.getElem?_insert_self]
    · exact ih hl.2 h

/-- An entry is found where all entries of its key are the same. -/
lemma getElem?_foldl_insert_of_same (h : (k, v) ∈ l) (hsame : ∀ v', (k, v') ∈ l → v' = v) :
    (l.foldl (fun m x => m.insert x.1 x.2) m)[k]? = some v := by
  induction l using List.reverseRecOn with
  | nil => cases h
  | append_singleton l x ih =>
    rw [List.foldl_concat]
    by_cases hkey : x.1 = k
    · subst hkey
      rw [Std.ExtTreeMap.getElem?_insert_self, hsame x.2 (List.mem_append_right _ (by simp))]
    · rw [getElem?_insert_of_ne hkey]
      refine ih ?_ fun v' hv' => hsame v' (List.mem_append_left _ hv')
      rcases List.mem_append.mp h with h | h
      · exact h
      · exact absurd (congrArg Prod.fst (List.mem_singleton.mp h)).symm hkey

/-- What is found after entries are put in was one of them, or was there. -/
lemma mem_of_getElem?_foldl_insert (h : (l.foldl (fun m x => m.insert x.1 x.2) m)[k]? = some v) :
    (k, v) ∈ l ∨ m[k]? = some v := by
  induction l generalizing m with
  | nil => exact .inr h
  | cons x l ih =>
    rw [List.foldl_cons] at h
    rcases ih h with hmem | hget
    · exact .inl (List.mem_cons_of_mem _ hmem)
    · by_cases hkey : x.1 = k
      · subst hkey
        rw [Std.ExtTreeMap.getElem?_insert_self] at hget
        obtain rfl := Option.some.inj hget
        exact .inl List.mem_cons_self
      · rw [getElem?_insert_of_ne hkey] at hget
        exact .inr hget

/-- The entries of a map that are put into an empty one. -/
lemma foldl_insert_filter (p : ν → Bool) (m : OrdMap κ ν) :
    (m.toList.filter fun x => p x.2).foldl (fun m x => m.insert x.1 x.2) ∅ =
      m.filter fun _ v => p v := by
  refine Std.ExtTreeMap.ext_getElem? fun k => ?_
  rw [Std.ExtTreeMap.getElem?_filter']
  have hl : ((m.toList.filter fun x => p x.2).map Prod.fst).Nodup :=
    (List.filter_sublist.map _).nodup (nodup_keys m)
  by_cases h : ∃ v, m[k]? = some v ∧ p v
  · obtain ⟨v, hv, hp⟩ := h
    have hmem : (k, v) ∈ m.toList.filter fun x => p x.2 :=
      List.mem_filter.mpr ⟨mem_toList_iff.mpr hv, hp⟩
    rw [getElem?_foldl_insert hl hmem, hv, Option.filter_some_pos hp]
  · rw [getElem?_foldl_insert_of_notMem, Std.ExtTreeMap.getElem?_empty]
    · cases hv : m[k]? with
      | none => rfl
      | some v => rw [Option.filter_some_neg (Bool.eq_false_iff.mpr fun hp => h ⟨v, hv, hp⟩)]
    · intro hmem
      obtain ⟨⟨_, v⟩, hx, rfl⟩ := List.mem_map.mp hmem
      obtain ⟨hv, hp⟩ := List.mem_filter.mp hx
      exact h ⟨v, mem_toList_iff.mp hv, hp⟩

end Insert

/-! ### Collecting -/

/-- Put a value behind those of its key. -/
def push (m : OrdMap κ (List ν)) (k : κ) (v : ν) : OrdMap κ (List ν) :=
  m.alter k fun entry => some (entry.getD [] ++ [v])

/-- The values of a key, in their order. -/
def valuesOf [DecidableEq κ] (l : List (κ × ν)) (k : κ) : List ν :=
  (l.filter fun x => x.1 = k).map Prod.snd

section Push

variable [DecidableEq κ] {l : List (κ × ν)} {k : κ} {v : ν}

omit [Ord κ] [Std.TransOrd κ] [Std.LawfulEqOrd κ] in
lemma mem_valuesOf : v ∈ valuesOf l k ↔ (k, v) ∈ l := by
  simp only [valuesOf, List.mem_map, List.mem_filter, decide_eq_true_eq]
  constructor
  · rintro ⟨⟨k, v⟩, ⟨hmem, rfl⟩, rfl⟩
    exact hmem
  · exact fun hmem => ⟨_, ⟨hmem, rfl⟩, rfl⟩

lemma getElem?_foldl_push (m : OrdMap κ (List ν)) :
    (l.foldl (fun m x => m.push x.1 x.2) m)[k]? =
      if valuesOf l k = [] then m[k]? else some (m[k]?.getD [] ++ valuesOf l k) := by
  induction l generalizing m with
  | nil => rfl
  | cons x l ih =>
    rw [List.foldl_cons, ih]
    by_cases hk : x.1 = k
    · have hvalues : valuesOf (x :: l) k = x.2 :: valuesOf l k := by simp [valuesOf, hk]
      have hpush : (m.push x.1 x.2)[k]? = some (m[k]?.getD [] ++ [x.2]) := by
        rw [push, hk, Std.ExtTreeMap.getElem?_alter_self]
      rw [hvalues, hpush, if_neg (List.cons_ne_nil _ _), Option.getD_some, List.append_assoc]
      split_ifs with hnil
      · rw [hnil]
      · rfl
    · have hvalues : valuesOf (x :: l) k = valuesOf l k := by simp [valuesOf, hk]
      rw [hvalues, push, getElem?_alter_of_ne hk]

end Push

/-! ### Changing what is found -/

/-- Go through `r` and change the entry of each of its keys. -/
def update (f : κ → ω → Option ν → Option ν) (r : OrdMap κ ω) (m : OrdMap κ ν) : OrdMap κ ν :=
  r.foldl (fun m k w => m.alter k (f k w)) m

section Update

variable {f : κ → ω → Option ν → Option ν} {l : List (κ × ω)} {m : OrdMap κ ν} {k : κ} {w : ω}

lemma getElem?_foldl_alter_of_notMem (h : k ∉ l.map Prod.fst) :
    (l.foldl (fun m x => m.alter x.1 (f x.1 x.2)) m)[k]? = m[k]? := by
  induction l generalizing m with
  | nil => rfl
  | cons x l ih =>
    rw [List.map_cons, List.mem_cons, not_or] at h
    rw [List.foldl_cons, ih h.2, getElem?_alter_of_ne (Ne.symm h.1)]

lemma getElem?_foldl_alter (hl : (l.map Prod.fst).Nodup) (h : (k, w) ∈ l) :
    (l.foldl (fun m x => m.alter x.1 (f x.1 x.2)) m)[k]? = f k w m[k]? := by
  induction l generalizing m with
  | nil => cases h
  | cons x l ih =>
    rw [List.map_cons, List.nodup_cons] at hl
    rw [List.foldl_cons]
    rcases List.mem_cons.mp h with rfl | h
    · rw [getElem?_foldl_alter_of_notMem hl.1, Std.ExtTreeMap.getElem?_alter_self]
    · have hne : x.1 ≠ k := fun heq => hl.1 (heq ▸ List.mem_map.mpr ⟨_, h, rfl⟩)
      rw [ih hl.2 h, getElem?_alter_of_ne hne]

theorem getElem?_update {r : OrdMap κ ω} :
    (update f r m)[k]? =
      match r[k]? with
      | some w => f k w m[k]?
      | none => m[k]? := by
  rw [update, Std.ExtTreeMap.foldl_eq_foldl_toList]
  cases h : r[k]? with
  | some w => exact getElem?_foldl_alter (nodup_keys r) (mem_toList_iff.mpr h)
  | none => exact getElem?_foldl_alter_of_notMem (notMem_keys_of_getElem? h)

end Update

/-! ### Changing until one is refused -/

/-- Go through the list and change the entry of each key, until an entry is missing or refused.
What has been changed stays so, and a refused entry is what the change leaves of it. -/
def sweep (missing : κ → ε) (f : κ → ω → ν → Except ε Unit × ν) :
    List (κ × ω) → OrdMap κ ν → Except ε Unit × OrdMap κ ν
  | [], m => (.ok (), m)
  | (k, w) :: l, m =>
    match m[k]? with
    | none => (.error (missing k), m)
    | some v =>
      match f k w v with
      | (.ok (), v') => sweep missing f l (m.insert k v')
      | (.error e, v') => (.error e, m.insert k v')

/-- The entry is there, and its change is not refused. -/
def Accepts (f : κ → ω → ν → Except ε Unit × ν) (m : OrdMap κ ν) (x : κ × ω) : Prop :=
  ∃ v, m[x.1]? = some v ∧ (f x.1 x.2 v).1 = .ok ()

section Sweep

variable {missing : κ → ε} {f : κ → ω → ν → Except ε Unit × ν} {l : List (κ × ω)}
  {m : OrdMap κ ν} {k : κ} {w : ω} {v : ν}

lemma accepts_insert_iff {x : κ × ω} (h : k ≠ x.1) :
    Accepts f (m.insert k v) x ↔ Accepts f m x := by
  rw [Accepts, Accepts, getElem?_insert_of_ne h]

/-- An entry that is put in again changes nothing. -/
lemma insert_eq_self_iff {v' : ν} (hv : m[k]? = some v) : m.insert k v' = m ↔ v' = v := by
  constructor
  · intro h
    have hget : (m.insert k v')[k]? = m[k]? := congrArg (·[k]?) h
    rw [Std.ExtTreeMap.getElem?_insert_self, hv] at hget
    exact Option.some.inj hget
  · rintro rfl
    refine Std.ExtTreeMap.ext_getElem? fun k' => ?_
    by_cases hk : k = k'
    · rw [← hk, Std.ExtTreeMap.getElem?_insert_self, hv]
    · exact getElem?_insert_of_ne hk v'

omit [Std.LawfulEqOrd κ] in
lemma sweep_cons_of_ok (hv : m[k]? = some v) (hok : (f k w v).1 = .ok ()) :
    sweep missing f ((k, w) :: l) m = sweep missing f l (m.insert k (f k w v).2) := by
  rcases h : f k w v with ⟨_ | ⟨⟨⟩⟩, v'⟩
  · rw [h] at hok
    cases hok
  · simp only [sweep, hv, h]

/-- At an entry that it does not accept the sweep ends. -/
lemma sweep_cons_of_not_accepts (h : ¬Accepts f m (k, w)) :
    (sweep missing f ((k, w) :: l) m).1 ≠ .ok () ∧
      (sweep missing f ((k, w) :: l) m).2[k]? = (m[k]?.map fun v => (f k w v).2) ∧
      ∀ k', k ≠ k' → (sweep missing f ((k, w) :: l) m).2[k']? = m[k']? := by
  cases hv : m[k]? with
  | none => simp [sweep, hv]
  | some v =>
    rcases hf : f k w v with ⟨e | ⟨⟨⟩⟩, v'⟩
    · simp only [sweep, hv, hf]
      refine ⟨by simp, ?_, fun k' hk => getElem?_insert_of_ne hk v'⟩
      rw [Std.ExtTreeMap.getElem?_insert_self, Option.map_some, hf]
    · exact absurd ⟨v, hv, by rw [hf]⟩ h

/-- A key that the list does not have keeps its entry. -/
lemma getElem?_sweep_of_notMem (h : k ∉ l.map Prod.fst) : (sweep missing f l m).2[k]? = m[k]? := by
  induction l generalizing m with
  | nil => rfl
  | cons x l ih =>
    obtain ⟨j, w⟩ := x
    rw [List.map_cons, List.mem_cons, not_or] at h
    by_cases haccepts : Accepts f m (j, w)
    · obtain ⟨v, hv, hok⟩ := haccepts
      rw [sweep_cons_of_ok hv hok, ih h.2, getElem?_insert_of_ne (Ne.symm h.1)]
    · exact (sweep_cons_of_not_accepts haccepts).2.2 k (Ne.symm h.1)

/-- The sweep gets through when every entry is accepted as it was at the start. -/
theorem sweep_eq_ok_iff (hl : (l.map Prod.fst).Nodup) :
    (sweep missing f l m).1 = .ok () ↔ ∀ x ∈ l, Accepts f m x := by
  induction l generalizing m with
  | nil => simp [sweep]
  | cons x l ih =>
    obtain ⟨k, w⟩ := x
    rw [List.map_cons, List.nodup_cons] at hl
    rw [List.forall_mem_cons]
    by_cases haccepts : Accepts f m (k, w)
    · obtain ⟨v, hv, hok⟩ := id haccepts
      rw [sweep_cons_of_ok hv hok, ih hl.2, and_iff_right haccepts]
      refine forall₂_congr fun y hy => accepts_insert_iff ?_
      rintro rfl
      exact hl.1 (List.mem_map.mpr ⟨y, hy, rfl⟩)
    · exact iff_of_false (sweep_cons_of_not_accepts haccepts).1 fun h => haccepts h.1

/-- A sweep that gets through changes each entry. -/
theorem getElem?_sweep_of_ok (hl : (l.map Prod.fst).Nodup)
    (hok : (sweep missing f l m).1 = .ok ()) (h : (k, w) ∈ l) :
    (sweep missing f l m).2[k]? = m[k]?.map fun v => (f k w v).2 := by
  induction l generalizing m with
  | nil => cases h
  | cons x l ih =>
    obtain ⟨j, u⟩ := x
    rw [List.map_cons, List.nodup_cons] at hl
    obtain ⟨v, hv, hokv⟩ : Accepts f m (j, u) := by
      by_contra hnot
      exact (sweep_cons_of_not_accepts hnot).1 hok
    rw [sweep_cons_of_ok hv hokv] at hok ⊢
    rcases List.mem_cons.mp h with heq | h
    · obtain ⟨rfl, rfl⟩ := Prod.mk.inj heq
      rw [getElem?_sweep_of_notMem hl.1, Std.ExtTreeMap.getElem?_insert_self, hv, Option.map_some]
    · have hne : j ≠ k := by
        rintro rfl
        exact hl.1 (List.mem_map.mpr ⟨_, h, rfl⟩)
      rw [ih hl.2 hok h, getElem?_insert_of_ne hne]

/-- What is left of a map that another one has been taken through. -/
theorem getElem?_sweep_toList {r : OrdMap κ ω} (hok : (sweep missing f r.toList m).1 = .ok ()) :
    (sweep missing f r.toList m).2[k]? =
      match r[k]? with
      | some w => m[k]?.map fun v => (f k w v).2
      | none => m[k]? := by
  cases h : r[k]? with
  | some w => exact getElem?_sweep_of_ok (nodup_keys r) hok (mem_toList_iff.mpr h)
  | none => exact getElem?_sweep_of_notMem (notMem_keys_of_getElem? h)

/-- A sweep leaves the map as it was when it changes no entry that it comes to. -/
theorem sweep_snd_eq_iff (hl : (l.map Prod.fst).Nodup) :
    (sweep missing f l m).2 = m ↔
      ∀ before k w after, l = before ++ (k, w) :: after → (∀ x ∈ before, Accepts f m x) →
        ∀ v, m[k]? = some v → (f k w v).2 = v := by
  induction l generalizing m with
  | nil => simp [sweep]
  | cons x l ih =>
    obtain ⟨k, w⟩ := x
    rw [List.map_cons, List.nodup_cons] at hl
    by_cases haccepts : Accepts f m (k, w)
    · obtain ⟨v, hv, hok⟩ := id haccepts
      rw [sweep_cons_of_ok hv hok]
      -- the first change is to be none, and then the others are
      have hfirst : (sweep missing f l (m.insert k (f k w v).2)).2 = m ↔
          (f k w v).2 = v ∧ (sweep missing f l m).2 = m := by
        constructor
        · intro h
          have hget : (sweep missing f l (m.insert k (f k w v).2)).2[k]? = m[k]? :=
            congrArg (·[k]?) h
          rw [getElem?_sweep_of_notMem hl.1, Std.ExtTreeMap.getElem?_insert_self, hv] at hget
          have heq := Option.some.inj hget
          rw [(insert_eq_self_iff hv).mpr heq] at h
          exact ⟨heq, h⟩
        · rintro ⟨heq, h⟩
          rw [(insert_eq_self_iff hv).mpr heq, h]
      rw [hfirst, ih hl.2]
      constructor
      · rintro ⟨heq, hrest⟩ before k' w' after hsplit hbefore v₁ hv₁
        rcases List.cons_eq_append_iff.mp hsplit with ⟨rfl, h⟩ | ⟨before', rfl, h⟩
        · obtain ⟨hx, -⟩ := List.cons_eq_cons.mp h
          obtain ⟨rfl, rfl⟩ := Prod.mk.inj hx
          obtain rfl := Option.some.inj (hv.symm.trans hv₁)
          exact heq
        · exact hrest before' k' w' after h
            (fun y hy => hbefore y (List.mem_cons_of_mem _ hy)) v₁ hv₁
      · intro h
        refine ⟨h [] k w l rfl (by simp) v hv, fun before k' w' after hsplit hbefore => ?_⟩
        refine h ((k, w) :: before) k' w' after (by rw [hsplit]; rfl) ?_
        exact List.forall_mem_cons.mpr ⟨haccepts, hbefore⟩
    · obtain ⟨-, hself, hother⟩ :=
        @sweep_cons_of_not_accepts _ _ _ _ _ _ _ missing f l m k w haccepts
      constructor
      · intro h before k' w' after hsplit hbefore v₁ hv₁
        rcases List.cons_eq_append_iff.mp hsplit with ⟨rfl, hcons⟩ | ⟨before', rfl, -⟩
        · obtain ⟨hx, -⟩ := List.cons_eq_cons.mp hcons
          obtain ⟨rfl, rfl⟩ := Prod.mk.inj hx
          rw [h, hv₁, Option.map_some] at hself
          exact (Option.some.inj hself).symm
        · exact absurd (hbefore _ List.mem_cons_self) haccepts
      · intro h
        refine Std.ExtTreeMap.ext_getElem? fun k' => ?_
        by_cases hk : k = k'
        · rw [← hk, hself]
          cases hv : m[k]? with
          | none => rfl
          | some v => rw [Option.map_some, h [] k w l rfl (by simp) v hv]
        · exact hother k' hk

end Sweep

end OrdMap

end Lib
