import Konduit.Cardano.Builder

/-!
# Mint redeemers

What is to be minted is given by policy and by the data of the policy's redeemer.  The redeemers
are numbered as the entries are, but the mint has its policies by script hash alone, and without
those of which nothing is minted.  So the numbers fit only where every entry has a policy of its
own and a quantity other than null (`mint_redeemers_iff`).
-/

open Lib

namespace Konduit.Cardano.Builder

/-- What is to be minted: the entries of a map by script hash and data, as it goes through them. -/
structure MintMap where
  entries : List ((BytesN 28 × Bytes) × OrdMap Bytes Int64)
  nodup : (entries.map Prod.fst).Nodup
  /-- The entries stand in the order of their script hashes; those of one script, in that of the
  data. -/
  ordered : (entries.map fun x => x.1.1).Pairwise fun a b => (compare a b).isLE

/-- Put in redeemers for the given data, in place of those that are discarded. -/
def withRedeemers (discardIf : RedeemerTag → Bool) (redeemers : OrdMap RedeemerPointer Bytes)
    (tx : Tx) : Tx :=
  { tx with
    redeemers := redeemers.foldl (fun m ptr data => m.insert ptr ⟨data, ⟨0, 0⟩⟩)
      (tx.redeemers.filter fun ptr _ => !discardIf ptr.tag) }

/-- The redeemers of the entries, by number, and their assets, by script hash. -/
def MintMap.split (mint : MintMap) : OrdMap RedeemerPointer Bytes × Assets Int64 :=
  mint.entries.zipIdx.foldl
    (fun (redeemers, assets) (((scriptHash, data), inner), index) =>
      (redeemers.insert (.fromMint (.ofNat index)) data, assets.insert scriptHash inner))
    (∅, ∅)

/-- Mint the assets. -/
def withMint (mint : MintMap) (tx : Tx) : Tx :=
  let (redeemers, assets) := mint.split
  let value : Value Int64 := (Value.new 0).withAssets (assets.toList.map fun x => (x.1, x.2.toList))
  withRedeemers (· == .mint) redeemers { tx with mint := intoMultiasset value.assets }

/-- The policies of the mint, in their order. -/
def Tx.policies (tx : Tx) : List (BytesN 28) := tx.mintValue.assets.toList.map Prod.fst

/-- Entry by entry, what is to be minted of an asset. -/
def MintMap.requested (mint : MintMap) (p : BytesN 28) (n : Bytes) : ℤ :=
  ((mint.entries.filter fun x => x.1.1 == p).map fun x => (x.2[n]?.getD 0).toInt).sum

/-- The mint's redeemers are at the policies that they were given for. -/
structure Points (mint : MintMap) (tx : Tx) : Prop where
  /-- The policy of a redeemer's number is one that its data was given for. -/
  own : ∀ i redeemer, tx.redeemers[RedeemerPointer.fromMint i]? = some redeemer →
    ∃ p inner, tx.policies[i.toNat]? = some p ∧ ((p, redeemer.data), inner) ∈ mint.entries
  /-- All data that was given for a policy is at the number of the policy. -/
  given : ∀ p data inner, ((p, data), inner) ∈ mint.entries →
    ∃ i redeemer, tx.policies[UInt32.toNat i]? = some p ∧
      tx.redeemers[RedeemerPointer.fromMint i]? = some redeemer ∧ redeemer.data = data
  /-- Each policy has one redeemer. -/
  unique : ∀ p ∈ tx.policies, ∃! i : UInt32,
    tx.policies[i.toNat]? = some p ∧ tx.redeemers.contains (.fromMint i)
  /-- What is minted is what was asked for. -/
  quantities : ∀ p n, (tx.mintValue.assets.quantity p n).toInt = mint.requested p n
  /-- The redeemers are those that the scripts need. -/
  required : ∀ resolvedInputs i,
    tx.redeemers.contains (.fromMint i) = (requiredScripts resolvedInputs tx).contains (.fromMint i)

/-- Every entry has a number and a policy of its own, and there is some of an asset to mint. -/
structure MintMap.Separate (mint : MintMap) : Prop where
  length_le : mint.entries.length ≤ 2 ^ 32
  hashes_nodup : (mint.entries.map fun x => x.1.1).Nodup
  quantity_ne : ∀ x ∈ mint.entries, ∃ (n : Bytes) (q : Int64), x.2[n]? = some q ∧ q ≠ 0

/-! ### The policies -/

section Policies

variable {mint : MintMap} {tx : Tx} {p : BytesN 28} {inner : OrdMap Bytes Int64}

/-- The data of the entries, by number. -/
def MintMap.numbered (mint : MintMap) : List (RedeemerPointer × Bytes) :=
  mint.entries.zipIdx.map fun x => (.fromMint (.ofNat x.2), x.1.1.2)

/-- The assets of the entries, by script hash. -/
def MintMap.hashed (mint : MintMap) : List (BytesN 28 × OrdMap Bytes Int64) :=
  mint.entries.map fun x => (x.1.1, x.2)

lemma MintMap.split_eq (mint : MintMap) :
    mint.split = (mint.numbered.foldl (fun m x => m.insert x.1 x.2) ∅,
      mint.hashed.foldl (fun m x => m.insert x.1 x.2) ∅) := by
  have hstep : ∀ (l : List (((BytesN 28 × Bytes) × OrdMap Bytes Int64) × ℕ))
      (redeemers : OrdMap RedeemerPointer Bytes) (assets : Assets Int64),
      l.foldl (fun (redeemers, assets) (((scriptHash, data), inner), index) =>
        (redeemers.insert (.fromMint (.ofNat index)) data, assets.insert scriptHash inner))
        (redeemers, assets) =
      ((l.map fun x => (RedeemerPointer.fromMint (.ofNat x.2), x.1.1.2)).foldl
        (fun m x => m.insert x.1 x.2) redeemers,
        ((l.map Prod.fst).map fun x => (x.1.1, x.2)).foldl
          (fun m x => m.insert x.1 x.2) assets) := by
    intro l
    induction l with
    | nil => exact fun _ _ => rfl
    | cons x l ih => exact fun redeemers assets => ih _ _
  rw [MintMap.split, hstep, List.zipIdx_map_fst]
  rfl

/-- The assets of an entry with a script hash of its own. -/
lemma MintMap.getElem?_split (h : (mint.entries.map fun x => x.1.1).Nodup) :
    mint.split.2[p]? = some inner ↔ ∃ data, ((p, data), inner) ∈ mint.entries := by
  have hkeys : (mint.hashed.map Prod.fst).Nodup := by
    rw [MintMap.hashed, List.map_map]
    exact h
  rw [MintMap.split_eq]
  constructor
  · intro hinner
    by_cases hp : p ∈ mint.hashed.map Prod.fst
    · obtain ⟨⟨_, inner'⟩, hmem, rfl⟩ := List.mem_map.mp hp
      rw [OrdMap.getElem?_foldl_insert hkeys hmem] at hinner
      cases hinner
      obtain ⟨⟨⟨_, data⟩, _⟩, hentry, heq⟩ := List.mem_map.mp hmem
      cases heq
      exact ⟨data, hentry⟩
    · rw [OrdMap.getElem?_foldl_insert_of_notMem hp, Std.ExtTreeMap.getElem?_empty] at hinner
      cases hinner
  · rintro ⟨data, hentry⟩
    exact OrdMap.getElem?_foldl_insert hkeys (List.mem_map.mpr ⟨_, hentry, rfl⟩)

lemma mintAssets_withMint :
    (withMint mint tx).mintValue.assets = Assets.pruneNullValues
      ((Value.new 0).withAssets (mint.split.2.toList.map fun x => (x.1, x.2.toList))).assets := by
  change (intoMultiasset _).elim ∅ Multiasset.assets = _
  rw [intoMultiasset]
  split_ifs with h
  · exact h.symm
  · rfl

lemma quantity_withMint (n : Bytes) :
    (withMint mint tx).mintValue.assets.quantity p n = (mint.split.2[p]?.bind (·[n]?)).getD 0 := by
  rw [mintAssets_withMint, Assets.quantity_pruneNullValues, Assets.quantity,
    Value.getElem?_withAssets_new]
  cases mint.split.2[p]? with
  | none => rfl
  | some inner => exact Assets.getD_nonNull n

/-- The policies of the mint are those of which there is something to mint. -/
lemma mem_policies_withMint :
    p ∈ (withMint mint tx).policies ↔
      ∃ inner, mint.split.2[p]? = some inner ∧
        ∃ (n : Bytes) (q : Int64), inner[n]? = some q ∧ q ≠ 0 := by
  rw [Tx.policies, OrdMap.mem_keys_iff, mintAssets_withMint, Std.ExtTreeMap.contains_iff_mem,
    Std.ExtTreeMap.mem_iff_isSome_getElem?, Option.isSome_iff_exists]
  simp only [Assets.getElem?_pruneNullValues_eq_some_iff, Value.getElem?_withAssets_new,
    Option.map_eq_some_iff, ← Assets.nonNull_ne_empty_iff]
  constructor
  · rintro ⟨_, hne, _, ⟨inner, hinner, rfl⟩, rfl⟩
    rw [Assets.nonNull_nonNull] at hne
    exact ⟨inner, hinner, hne⟩
  · rintro ⟨inner, hinner, hne⟩
    exact ⟨_, by rwa [Assets.nonNull_nonNull], _, ⟨inner, hinner, rfl⟩, rfl⟩

/-- A policy has one number. -/
lemma eq_of_getElem?_policies {i j : UInt32} (hi : tx.policies[i.toNat]? = some p)
    (hj : tx.policies[j.toNat]? = some p) : i = j := by
  have hnodup : tx.policies.Nodup := OrdMap.nodup_keys _
  obtain ⟨_, hi⟩ := List.getElem?_eq_some_iff.mp hi
  obtain ⟨_, hj⟩ := List.getElem?_eq_some_iff.mp hj
  exact UInt32.toNat_inj.mp (hnodup.getElem_inj_iff.mp (hi.trans hj.symm))

/-- Policies of their own, all with something to mint, are the policies of the mint. -/
lemma MintMap.Separate.policies_eq (h : mint.Separate) :
    (withMint mint tx).policies = mint.entries.map fun x => x.1.1 := by
  refine OrdMap.keys_eq ?_ fun p => ?_
  · refine (mint.ordered.and h.hashes_nodup).imp ?_
    rintro a b ⟨hle, hne⟩
    cases hcompare : compare a b with
    | lt => rfl
    | eq => exact absurd (Std.LawfulEqOrd.eq_of_compare hcompare) hne
    | gt => simp [hcompare] at hle
  · rw [← OrdMap.mem_keys_iff, ← Tx.policies, mem_policies_withMint, List.mem_map]
    simp only [MintMap.getElem?_split h.hashes_nodup]
    constructor
    · rintro ⟨⟨⟨p, data⟩, inner⟩, hentry, rfl⟩
      exact ⟨inner, ⟨data, hentry⟩, h.quantity_ne _ hentry⟩
    · rintro ⟨inner, ⟨data, hentry⟩, -⟩
      exact ⟨_, hentry, rfl⟩

end Policies

/-! ### The redeemers -/

section Redeemers

variable {mint : MintMap} {tx : Tx}

lemma getElem?_withRedeemers {discardIf : RedeemerTag → Bool}
    {redeemers : OrdMap RedeemerPointer Bytes} (ptr : RedeemerPointer) :
    (withRedeemers discardIf redeemers tx).redeemers[ptr]? =
      match redeemers[ptr]? with
      | some data => some ⟨data, ⟨0, 0⟩⟩
      | none => tx.redeemers[ptr]?.filter fun _ => !discardIf ptr.tag := by
  have hfold : (withRedeemers discardIf redeemers tx).redeemers =
      (redeemers.toList.map fun x => (x.1, (⟨x.2, ⟨0, 0⟩⟩ : Redeemer))).foldl
        (fun m x => m.insert x.1 x.2) (tx.redeemers.filter fun ptr _ => !discardIf ptr.tag) := by
    rw [withRedeemers, Std.ExtTreeMap.foldl_eq_foldl_toList, List.foldl_map]
  have hkeys : (redeemers.toList.map fun x => (x.1, (⟨x.2, ⟨0, 0⟩⟩ : Redeemer))).map Prod.fst =
      redeemers.toList.map Prod.fst := by
    rw [List.map_map]
    rfl
  rw [hfold]
  cases h : redeemers[ptr]? with
  | some data =>
    refine OrdMap.getElem?_foldl_insert (hkeys ▸ OrdMap.nodup_keys redeemers) ?_
    exact List.mem_map.mpr ⟨_, OrdMap.mem_toList_iff.mpr h, rfl⟩
  | none =>
    rw [OrdMap.getElem?_foldl_insert_of_notMem (hkeys ▸ OrdMap.notMem_keys_of_getElem? h),
      Std.ExtTreeMap.getElem?_filter']

lemma MintMap.numbered_keys (mint : MintMap) :
    mint.numbered.map Prod.fst =
      (List.range mint.entries.length).map fun k => .fromMint (.ofNat k) := by
  rw [MintMap.numbered, List.map_map, List.range_eq_range', ← List.zipIdx_map_snd 0, List.map_map]
  rfl

/-- The data of the entry with a number, where there are not too many numbers. -/
lemma MintMap.getElem?_split_fst (h : mint.entries.length ≤ 2 ^ 32) (i : UInt32) :
    mint.split.1[RedeemerPointer.fromMint i]? = mint.entries[i.toNat]?.map fun x => x.1.2 := by
  have hnumber : ∀ k < mint.entries.length, (UInt32.ofNat k).toNat = k := fun k hk =>
    UInt32.toNat_ofNat_of_lt' (hk.trans_le h)
  have hptr : ∀ {j k : UInt32}, RedeemerPointer.fromMint j = .fromMint k → j = k := fun heq =>
    congrArg RedeemerPointer.index heq
  rw [MintMap.split_eq]
  cases hi : mint.entries[i.toNat]? with
  | some x =>
    have hkeys : (mint.numbered.map Prod.fst).Nodup := by
      rw [MintMap.numbered_keys]
      refine List.nodup_range.map_on fun j hj k hk heq => ?_
      rw [← hnumber j (List.mem_range.mp hj), ← hnumber k (List.mem_range.mp hk), hptr heq]
    refine OrdMap.getElem?_foldl_insert hkeys (List.mem_map.mpr ⟨(x, i.toNat), ?_, ?_⟩)
    · exact List.mem_zipIdx_iff_getElem?.mpr hi
    · rw [UInt32.ofNat_toNat]
  | none =>
    have hkey : RedeemerPointer.fromMint i ∉ mint.numbered.map Prod.fst := by
      rw [MintMap.numbered_keys, List.mem_map]
      rintro ⟨k, hk, heq⟩
      have hlt := List.mem_range.mp hk
      rw [← hptr heq, hnumber k hlt, List.getElem?_eq_getElem hlt] at hi
      cases hi
    rw [OrdMap.getElem?_foldl_insert_of_notMem hkey, Std.ExtTreeMap.getElem?_empty]
    rfl

/-- The redeemer with a number has the data of the entry with this number. -/
lemma getElem?_redeemers_withMint (h : mint.entries.length ≤ 2 ^ 32) (i : UInt32) :
    (withMint mint tx).redeemers[RedeemerPointer.fromMint i]? =
      mint.entries[i.toNat]?.map fun x => ⟨x.1.2, ⟨0, 0⟩⟩ := by
  rw [withMint, getElem?_withRedeemers, MintMap.getElem?_split_fst h]
  cases mint.entries[i.toNat]? with
  | some x => rfl
  | none => exact Option.filter_eq_none_iff.mpr fun _ _ => Bool.false_ne_true

/-- Other redeemers stay as they are. -/
lemma getElem?_redeemers_withMint_of_ne {ptr : RedeemerPointer} (h : ptr.tag ≠ .mint) :
    (withMint mint tx).redeemers[ptr]? = tx.redeemers[ptr]? := by
  have hkey : ptr ∉ mint.numbered.map Prod.fst := by
    rw [MintMap.numbered_keys, List.mem_map]
    rintro ⟨k, -, rfl⟩
    exact h rfl
  rw [withMint, getElem?_withRedeemers, MintMap.split_eq]
  simp only
  rw [OrdMap.getElem?_foldl_insert_of_notMem hkey, Std.ExtTreeMap.getElem?_empty,
    beq_eq_false_iff_ne.mpr h]
  cases tx.redeemers[ptr]? <;> rfl

end Redeemers

/-! ### Each at its policy -/

section Points

variable {mint : MintMap} {tx : Tx}

/-- The pointers of the scripts that mint are the numbers of the policies. -/
lemma contains_requiredScripts (resolvedInputs : ResolvedInputs) (i : UInt32) :
    (requiredScripts resolvedInputs tx).contains (.fromMint i) ↔
      ∃ k < tx.policies.length, UInt32.ofNat k = i := by
  rw [requiredScripts, Std.ExtTreeMap.contains_ofList, List.map_append, List.contains_iff_mem,
    List.mem_append]
  constructor
  · rintro (hspend | hmint)
    · obtain ⟨⟨ptr, hash⟩, hmem, rfl⟩ := List.mem_map.mp hspend
      obtain ⟨⟨input, k⟩, -, heq⟩ := List.mem_filterMap.mp hmem
      simp [Option.bind_eq_some_iff, RedeemerPointer.fromSpend, RedeemerPointer.fromMint] at heq
    · obtain ⟨⟨ptr, hash⟩, hmem, rfl⟩ := List.mem_map.mp hmint
      obtain ⟨⟨entry, k⟩, hk, heq⟩ := List.mem_map.mp hmem
      rw [List.mem_zipIdx_iff_getElem?] at hk
      obtain ⟨hlt, -⟩ := List.getElem?_eq_some_iff.mp hk
      refine ⟨k, by rwa [Tx.policies, List.length_map], ?_⟩
      exact congrArg (fun x => x.1.index) heq
  · rintro ⟨k, hk, rfl⟩
    rw [Tx.policies, List.length_map] at hk
    have hentry : (tx.mintValue.assets.toList[k], k) ∈ tx.mintValue.assets.toList.zipIdx :=
      List.mem_zipIdx_iff_getElem?.mpr (List.getElem?_eq_getElem hk)
    exact .inr (List.mem_map.mpr ⟨_, List.mem_map.mpr ⟨_, hentry, rfl⟩, rfl⟩)

/-- Each entry has a number, where there are not too many. -/
lemma MintMap.exists_number (h : mint.entries.length ≤ 2 ^ 32)
    {x : (BytesN 28 × Bytes) × OrdMap Bytes Int64} (hx : x ∈ mint.entries) :
    ∃ i : UInt32, mint.entries[i.toNat]? = some x := by
  obtain ⟨k, hk, hget⟩ := List.mem_iff_getElem.mp hx
  refine ⟨.ofNat k, ?_⟩
  rw [UInt32.toNat_ofNat_of_lt' (hk.trans_le h), List.getElem?_eq_getElem hk, hget]

/-- What is asked for of a policy of its own is the entry's quantity. -/
lemma MintMap.requested_eq (h : (mint.entries.map fun x => x.1.1).Nodup) (p : BytesN 28)
    (n : Bytes) :
    mint.requested p n = ((mint.split.2[p]?.bind (·[n]?)).getD 0).toInt := by
  cases hinner : mint.split.2[p]? with
  | none =>
    have hnone : (mint.entries.filter fun x => x.1.1 == p) = [] := by
      refine List.filter_eq_nil_iff.mpr fun x hx hp => ?_
      have hsome := (MintMap.getElem?_split h).mpr ⟨x.1.2, hx⟩
      rw [eq_of_beq hp, hinner] at hsome
      cases hsome
    rw [MintMap.requested, hnone]
    rfl
  | some inner =>
    obtain ⟨data, hentry⟩ := (MintMap.getElem?_split h).mp hinner
    obtain ⟨before, after, hsplit⟩ := List.append_of_mem hentry
    rw [hsplit, List.map_append, List.map_cons, List.nodup_middle, List.nodup_cons,
      List.mem_append, not_or] at h
    have hother : ∀ l : List ((BytesN 28 × Bytes) × OrdMap Bytes Int64),
        p ∉ l.map (·.1.1) → (l.filter fun x => x.1.1 == p) = [] := by
      intro l hl
      refine List.filter_eq_nil_iff.mpr fun x hx hp => hl ?_
      exact List.mem_map.mpr ⟨x, hx, eq_of_beq hp⟩
    rw [MintMap.requested, hsplit, List.filter_append, hother before h.1.1, List.filter_cons,
      if_pos (beq_self_eq_true p), hother after h.1.2]
    simp

lemma MintMap.Separate.getElem?_policies (h : mint.Separate) (k : ℕ) :
    (withMint mint tx).policies[k]? = mint.entries[k]?.map (·.1.1) := by
  rw [h.policies_eq, List.getElem?_map]

lemma MintMap.Separate.contains_redeemers (h : mint.Separate) (i : UInt32) :
    (withMint mint tx).redeemers.contains (.fromMint i) ↔ i.toNat < mint.entries.length := by
  rw [Std.ExtTreeMap.contains_iff_mem, Std.ExtTreeMap.mem_iff_isSome_getElem?,
    getElem?_redeemers_withMint h.length_le, Option.isSome_map, isSome_getElem?]

/-- Where each entry has a policy of its own, its redeemer is at this policy. -/
lemma MintMap.Separate.points (h : mint.Separate) : Points mint (withMint mint tx) := by
  have hpolicy := @MintMap.Separate.getElem?_policies mint tx h
  have hcontains := @MintMap.Separate.contains_redeemers mint tx h
  have hredeemer := @getElem?_redeemers_withMint mint tx h.length_le
  constructor
  · intro i redeemer hget
    rw [hredeemer, Option.map_eq_some_iff] at hget
    obtain ⟨⟨⟨p, data⟩, inner⟩, hentry, rfl⟩ := hget
    exact ⟨p, inner, by rw [hpolicy, hentry]; rfl, List.mem_of_getElem? hentry⟩
  · intro p data inner hentry
    obtain ⟨i, hi⟩ := MintMap.exists_number h.length_le hentry
    exact ⟨i, _, by rw [hpolicy, hi]; rfl, by rw [hredeemer, hi]; rfl, rfl⟩
  · intro p hp
    rw [h.policies_eq] at hp
    obtain ⟨x, hx, rfl⟩ := List.mem_map.mp hp
    obtain ⟨i, hi⟩ := MintMap.exists_number h.length_le hx
    obtain ⟨hlt, -⟩ := List.getElem?_eq_some_iff.mp hi
    have hi' : (withMint mint tx).policies[i.toNat]? = some x.1.1 := by
      rw [hpolicy, hi]
      rfl
    refine ⟨i, ⟨hi', (hcontains i).mpr hlt⟩, ?_⟩
    rintro j ⟨hj, -⟩
    exact eq_of_getElem?_policies hj hi'
  · intro p n
    rw [quantity_withMint, MintMap.requested_eq h.hashes_nodup]
  · intro resolvedInputs i
    rw [Bool.eq_iff_iff, hcontains, contains_requiredScripts, h.policies_eq, List.length_map]
    constructor
    · exact fun hlt => ⟨i.toNat, hlt, UInt32.ofNat_toNat⟩
    · rintro ⟨k, hk, rfl⟩
      rwa [UInt32.toNat_ofNat_of_lt' (hk.trans_le h.length_le)]

/-- A script hash and the data that is given for it have this number. -/
def Tx.HasAt (tx : Tx) (key : BytesN 28 × Bytes) (i : UInt32) : Prop :=
  tx.policies[i.toNat]? = some key.1 ∧
    ∃ redeemer, tx.redeemers[RedeemerPointer.fromMint i]? = some redeemer ∧ redeemer.data = key.2

/-- The number tells the script hash and the data. -/
lemma Tx.HasAt.eq_of_number {key key' : BytesN 28 × Bytes} {i : UInt32} (h : tx.HasAt key i)
    (h' : tx.HasAt key' i) : key = key' := by
  obtain ⟨hpolicy, redeemer, hredeemer, hdata⟩ := h
  obtain ⟨hpolicy', redeemer', hredeemer', hdata'⟩ := h'
  obtain rfl := Option.some.inj (hredeemer.symm.trans hredeemer')
  exact Prod.ext (Option.some.inj (hpolicy.symm.trans hpolicy')) (hdata.symm.trans hdata')

lemma Points.exists_hasAt (h : Points mint tx) {key : BytesN 28 × Bytes}
    (hkey : key ∈ mint.entries.map Prod.fst) : ∃ i, tx.HasAt key i := by
  obtain ⟨⟨⟨p, data⟩, inner⟩, hentry, rfl⟩ := List.mem_map.mp hkey
  obtain ⟨i, redeemer, hp, hredeemer, hdata⟩ := h.given p data inner hentry
  exact ⟨i, hp, redeemer, hredeemer, hdata⟩

/-- There are no more numbers than words of 32 bits. -/
lemma Points.length_le (h : Points mint tx) : mint.entries.length ≤ 2 ^ 32 := by
  choose! number hnumber using fun key hkey => @Points.exists_hasAt mint tx h key hkey
  have hnumbers : ((mint.entries.map Prod.fst).map fun key => (number key).toNat).Nodup := by
    refine mint.nodup.map_on fun key hkey key' hkey' heq => ?_
    have hat := hnumber key hkey
    rw [UInt32.toNat_inj.mp heq] at hat
    exact hat.eq_of_number (hnumber key' hkey')
  have hsubset : ((mint.entries.map Prod.fst).map fun key => (number key).toNat) ⊆
      List.range (2 ^ 32) := by
    intro k hk
    obtain ⟨key, -, rfl⟩ := List.mem_map.mp hk
    exact List.mem_range.mpr (number key).toNat_lt
  have hle := (List.subperm_of_subset hnumbers hsubset).length_le
  rwa [List.length_map, List.length_map, List.length_range] at hle

/-- Two data are not given for one policy. -/
lemma Points.hashes_nodup (h : Points mint tx) : (mint.entries.map fun x => x.1.1).Nodup := by
  have hmap : (mint.entries.map fun x => x.1.1) = (mint.entries.map Prod.fst).map Prod.fst := by
    rw [List.map_map]
    rfl
  rw [hmap]
  refine mint.nodup.map_on fun key hkey key' hkey' heq => ?_
  obtain ⟨i, hi⟩ := h.exists_hasAt hkey
  obtain ⟨j, hj⟩ := h.exists_hasAt hkey'
  -- one policy has one number
  obtain rfl := eq_of_getElem?_policies hi.1 (heq ▸ hj.1)
  exact hi.eq_of_number hj

/-- Where the redeemer of each entry is at the entry's policy, the entries have policies of their
own. -/
lemma Points.separate (h : Points mint (withMint mint tx)) : mint.Separate := by
  refine ⟨h.length_le, h.hashes_nodup, fun x hx => ?_⟩
  obtain ⟨i, hpolicy, -⟩ := h.exists_hasAt (List.mem_map_of_mem hx)
  obtain ⟨inner, hinner, hquantity⟩ := mem_policies_withMint.mp (List.mem_of_getElem? hpolicy)
  obtain ⟨data, hentry⟩ := (MintMap.getElem?_split h.hashes_nodup).mp hinner
  have heq : ((x.1.1, data), inner) = x := List.inj_on_of_nodup_map h.hashes_nodup hentry hx rfl
  rwa [← heq]

/-- **Mint redeemers.**  They are at their own policies, the policies are minted as asked for, and
the scripts need these redeemers, exactly when every entry has a number and a policy of its own and
something to mint. -/
theorem mint_redeemers_iff (mint : MintMap) (tx : Tx) :
    Points mint (withMint mint tx) ↔ mint.Separate :=
  ⟨Points.separate, MintMap.Separate.points⟩

/-- Nothing is minted of the first policy. -/
def nothingFirst : MintMap where
  entries :=
    [((.fill 28 0, [0x00]), .ofList [([0x61], 0)] compare),
      ((.fill 28 1, [0x01]), .ofList [([0x62], 1)] compare)]
  nodup := by decide
  ordered := by decide

/-- The first redeemer is at the policy of the second one. -/
example : (withMint nothingFirst .empty).policies = [.fill 28 1] ∧
    (withMint nothingFirst .empty).redeemers.toList.map (fun x => (x.1.index, x.2.data)) =
      [(0, [0x00]), (1, [0x01])] := by
  decide +kernel

theorem not_mint_redeemers : ¬∀ (mint : MintMap) (tx : Tx), Points mint (withMint mint tx) := by
  intro h
  have hpolicies : (withMint nothingFirst .empty).policies[(0 : UInt32).toNat]? =
      some (.fill 28 1) := by decide +kernel
  obtain ⟨p, inner, hp, hentry⟩ :=
    (h nothingFirst .empty).own 0 ⟨[0x00], ⟨0, 0⟩⟩ (by decide +kernel)
  obtain rfl := Option.some.inj (hpolicies.symm.trans hp)
  have hkey : (.fill 28 1, [0x00]) ∈ nothingFirst.entries.map Prod.fst :=
    List.mem_map.mpr ⟨_, hentry, rfl⟩
  exact absurd hkey (by decide)

end Points

end Konduit.Cardano.Builder
