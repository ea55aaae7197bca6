import Konduit.Server.CoIter
import Konduit.Server.Store
import Konduit.Tx.SteppedUtxos

/-!
# Syncing the retainers

The server goes through the channels that it knows and those that it finds on chain, side by side,
and gives to each the retainers that were found for it.  Only opened channels that fit its own
parameters are found; any other one is left without a retainer, like those that are gone.  The
first entry that cannot be changed ends the sync (`sync_retainers_once`).
-/

open Lib

namespace Konduit.Server

open Data Tx
open Kernel (OutputReference)

/-! ### The table -/

namespace Keytag

/-- The key and the tag, as bytes. -/
def bytes (self : Keytag) : Bytes := self.key.bytes.1 ++ self.tag.bytes

lemma bytes_inj {a b : Keytag} (h : a.bytes = b.bytes) : a = b := by
  obtain ⟨⟨⟨key, hkey⟩⟩, ⟨tag⟩⟩ := a
  obtain ⟨⟨⟨key', hkey'⟩⟩, ⟨tag'⟩⟩ := b
  obtain ⟨rfl, rfl⟩ := List.append_inj h (hkey.trans hkey'.symm)
  rfl

instance instOrd : Ord Keytag := ⟨compareOn bytes⟩

instance instTransOrd : Std.TransOrd Keytag :=
  inferInstanceAs (Std.TransCmp (compareOn bytes))

instance instLawfulEqOrd : Std.LawfulEqOrd Keytag where
  eq_of_compare h := bytes_inj (@Std.LawfulEqCmp.eq_of_compare _ compare _ _ _ h)

end Keytag

/-- The table of entries, in the order of their keys. -/
abbrev Table := OrdMap Keytag Bytes

namespace Table

/-- The entries of a table. -/
def store (table : Table) : Store := fun keytag => table[keytag]?

/-- The channels of a table, in order. -/
def keys (table : Table) : List Keytag := table.toList.map Prod.fst

/-- Change an entry, or make it. -/
def upsert (table : Table) (keytag : Keytag) (f : Channel → Except ChannelError Channel) :
    Except DbError Table :=
  (table.store.upsert keytag f).map fun x => table.insert keytag x.1.encode

end Table

/-! ### What is found on chain -/

/-- What the server asks of channels. -/
structure ChannelParameters where
  closePeriod : Duration
  tagLength : ℕ

namespace Retainer

/-- The retainer that an opened channel is. -/
def tryFrom (channel : Tx.Channel) : Option Retainer :=
  match channel.stage with
  | .opened subbed useds =>
    -- no list is longer
    if h : useds.length < 2 ^ 64 then some ⟨channel.vars.amount, subbed, useds, h⟩ else none
  | _ => none

end Retainer

/-- The key and the tag of a channel on chain. -/
def keytagOf (channel : Tx.Channel) : Keytag := ⟨channel.constants.addVkey, channel.constants.tag⟩

/-- The channel is opened. -/
def isOpened : Stage → Bool
  | .opened _ _ => true
  | _ => false

section Snapshot

variable (hash : Kernel.ScriptHash) (own : VerifyingKey) (params : ChannelParameters)

/-- The channel is open, is the server's, and has what it asks for. -/
def fits (channel : Tx.Channel) : Bool :=
  channel.constants.subVkey = own && params.closePeriod ≤ channel.constants.closePeriod &&
    channel.constants.tag.bytes.length ≤ params.tagLength && isOpened channel.stage

/-- The channels that fit, with the retainers that they are. -/
def candidates (utxos : OrdMap OutputReference Kernel.Output) : List (Keytag × Retainer) :=
  ((utxos.toList.filterMap fun u => (Tx.Channel.tryFrom hash u.2).toOption).filter
    (fits own params)).filterMap fun channel =>
      (Retainer.tryFrom channel).map fun retainer => (keytagOf channel, retainer)

/-- The retainers of each channel. -/
def retainers (utxos : OrdMap OutputReference Kernel.Output) : OrdMap Keytag (List Retainer) :=
  (candidates hash own params utxos).foldl (fun m x => m.push x.1 x.2) ∅

/-- A channel that is read off an output of the snapshot. -/
def OnChain (utxos : OrdMap OutputReference Kernel.Output) (channel : Tx.Channel) : Prop :=
  ∃ oref output, utxos[(oref : OutputReference)]? = some output ∧
    Tx.Channel.tryFrom hash output = .ok channel

/-- Some channel of the snapshot with this keytag is retained. -/
def Retained (utxos : OrdMap OutputReference Kernel.Output) (keytag : Keytag) : Prop :=
  ∃ channel, OnChain hash utxos channel ∧ keytagOf channel = keytag ∧ fits own params channel ∧
    (Retainer.tryFrom channel).isSome

/-! ### The sync -/

/-- Whose entry is changed, and the retainers it is given. -/
def visit : CoItem Keytag (List Retainer) → Keytag × List Retainer
  | .left k => (k, [])
  | .right k v => (k, v)
  | .both k v => (k, v)

/-- Change one entry after another. -/
def upsertAll (table : Table) : List (Keytag × List Retainer) → Except DbError Unit × Table
  | [] => (.ok (), table)
  | (k, v) :: visits =>
    match table.upsert k fun channel => channel.applyRetainer v with
    | .ok table => upsertAll table visits
    | .error e => (.error e, table)

/-- The channels to visit, each with the retainers found for it. -/
def visits (table : Table) (utxos : OrdMap OutputReference Kernel.Output) :
    List (Keytag × List Retainer) :=
  (CoIter.new table.keys (retainers hash own params utxos)).items.map visit

/-- Give every channel the retainers found for it, up to the first failure. -/
def syncRetainers (table : Table) (utxos : OrdMap OutputReference Kernel.Output) :
    Except DbError Unit × Table :=
  upsertAll table (visits hash own params table utxos)

end Snapshot

/-! ### Whom it visits -/

/-- Every key that is known or on chain is visited once, in order, and given none exactly when it
is not on chain. -/
structure VisitsOnce (known onChain : Keytag → Prop) (visits : List (Keytag × List Retainer)) :
    Prop where
  sorted : (visits.map Prod.fst).Pairwise fun a b => compare a b = .lt
  mem_iff : ∀ k, k ∈ visits.map Prod.fst ↔ known k ∨ onChain k
  nil_iff : ∀ k v, (k, v) ∈ visits → (v = [] ↔ ¬onChain k)

lemma VisitsOnce.nodup {known onChain : Keytag → Prop} {visits : List (Keytag × List Retainer)}
    (h : VisitsOnce known onChain visits) : (visits.map Prod.fst).Nodup := by
  refine h.sorted.imp ?_
  rintro a _ hlt rfl
  rw [@Std.ReflCmp.compare_self _ compare] at hlt
  cases hlt

section Visits

variable {hash : Kernel.ScriptHash} {own : VerifyingKey} {params : ChannelParameters}
  {table : Table} {utxos : OrdMap OutputReference Kernel.Output} {k : Keytag} {v : List Retainer}

lemma mem_candidates {retainer : Retainer} :
    (k, retainer) ∈ candidates hash own params utxos ↔
      ∃ channel, OnChain hash utxos channel ∧ keytagOf channel = k ∧ fits own params channel ∧
        Retainer.tryFrom channel = some retainer := by
  simp only [candidates, List.mem_filterMap, List.mem_filter, Option.map_eq_some_iff,
    Prod.mk.injEq]
  constructor
  · rintro ⟨channel, ⟨⟨⟨oref, output⟩, houtput, hread⟩, hfits⟩, _, hretainer, rfl, rfl⟩
    have hchannel := Result.toOption_eq_some.mp hread
    exact ⟨channel, ⟨oref, output, OrdMap.mem_toList_iff.mp houtput, hchannel⟩, rfl, hfits,
      hretainer⟩
  · rintro ⟨channel, ⟨oref, output, houtput, hread⟩, rfl, hfits, hretainer⟩
    have hchannel := Result.toOption_eq_some.mpr hread
    exact ⟨channel, ⟨⟨_, OrdMap.mem_toList_iff.mpr houtput, hchannel⟩, hfits⟩, retainer, hretainer,
      rfl, rfl⟩

/-- The retainers of a channel, where there are any. -/
lemma getElem?_retainers :
    (retainers hash own params utxos)[k]? =
      if OrdMap.valuesOf (candidates hash own params utxos) k = [] then none
      else some (OrdMap.valuesOf (candidates hash own params utxos) k) := by
  rw [retainers, OrdMap.getElem?_foldl_push]
  rfl

lemma valuesOf_candidates_ne_nil_iff :
    OrdMap.valuesOf (candidates hash own params utxos) k ≠ [] ↔
      Retained hash own params utxos k := by
  rw [ne_eq, List.eq_nil_iff_forall_not_mem, not_forall_not]
  simp only [OrdMap.mem_valuesOf, mem_candidates, Retained, Option.isSome_iff_exists]
  grind

/-- The channels that have retainers are those with one that is retained. -/
lemma contains_retainers_iff :
    (retainers hash own params utxos).contains k ↔ Retained hash own params utxos k := by
  rw [Std.ExtTreeMap.contains_iff_mem, Std.ExtTreeMap.mem_iff_isSome_getElem?, getElem?_retainers,
    ← valuesOf_candidates_ne_nil_iff]
  split_ifs with hnil <;> simp [hnil]

variable (hash own params table utxos) in
lemma merges_visits : Merges table.keys (retainers hash own params utxos).toList
    (CoIter.new table.keys (retainers hash own params utxos)).items := by
  refine CoIter.merges_new _ ?_
  rw [Table.keys, Std.ExtTreeMap.map_fst_toList_eq_keys]
  exact Std.ExtTreeMap.ordered_keys

/-- What a visit gives a keytag are the retainers that are found for it, if any. -/
lemma eq_valuesOf_of_mem_visits (h : (k, v) ∈ visits hash own params table utxos) :
    v = OrdMap.valuesOf (candidates hash own params utxos) k := by
  have hfound : ∀ {k v}, (k, v) ∈ (retainers hash own params utxos).toList →
      v = OrdMap.valuesOf (candidates hash own params utxos) k := by
    intro k v hv
    have hget := OrdMap.mem_toList_iff.mp hv
    rw [getElem?_retainers] at hget
    split_ifs at hget
    exact (Option.some.inj hget).symm
  obtain ⟨item, hitem, heq⟩ := List.mem_map.mp h
  cases item with
  | left k =>
    obtain ⟨rfl, rfl⟩ := Prod.mk.inj heq
    have hnone := ((merges_visits hash own params table utxos).left_iff k).mp hitem
    rw [OrdMap.mem_keys_iff, contains_retainers_iff, ← valuesOf_candidates_ne_nil_iff] at hnone
    exact (not_ne_iff.mp hnone.2).symm
  | right k v =>
    obtain ⟨rfl, rfl⟩ := Prod.mk.inj heq
    exact hfound (((merges_visits hash own params table utxos).right_iff k v).mp hitem).2
  | both k v =>
    obtain ⟨rfl, rfl⟩ := Prod.mk.inj heq
    exact hfound (((merges_visits hash own params table utxos).both_iff k v).mp hitem).2

/-- Every keytag that is known or retained is visited once. -/
lemma visits_once : VisitsOnce (fun k => table.contains k) (Retained hash own params utxos)
    (visits hash own params table utxos) := by
  have hmerges := merges_visits hash own params table utxos
  have hfst : (visits hash own params table utxos).map Prod.fst =
      (CoIter.new table.keys (retainers hash own params utxos)).items.map CoItem.key := by
    rw [visits, List.map_map]
    exact List.map_congr_left fun item _ => by cases item <;> rfl
  constructor
  · rw [hfst]
    exact hmerges.sorted
  · intro k
    rw [hfst, hmerges.mem_keys_iff, Table.keys, OrdMap.mem_keys_iff, OrdMap.mem_keys_iff,
      contains_retainers_iff]
  · intro k v hv
    rw [eq_valuesOf_of_mem_visits hv, ← valuesOf_candidates_ne_nil_iff, not_not]

end Visits

/-! ### What it changes -/

/-- What the entry of a keytag becomes when it is given these retainers. -/
def Table.written (table : Table) (k : Keytag) (v : List Retainer) : Except DbError Value :=
  (table.store.upsert k fun channel => channel.applyRetainer v).map Prod.fst

/-- The entries of some visits are changed, each once, and no other ones.  What is left of the
visits starts with one whose change fails. -/
structure Performs (table : Table) (done rest : List (Keytag × List Retainer))
    (result : Except DbError Unit × Table) : Prop where
  changed : ∀ k v, (k, v) ∈ done →
    ∃ value, table.written k v = .ok value ∧ result.2[k]? = some value.encode
  other : ∀ k, k ∉ done.map Prod.fst → result.2[k]? = table[k]?
  ends : rest = [] ∧ result.1 = .ok () ∨
    ∃ k v rest' e, rest = (k, v) :: rest' ∧ table.written k v = .error e ∧ result.1 = .error e

section Runs

variable {table table' : Table} {k : Keytag} {v : List Retainer}

/-- What is written of a keytag is made of its own entry. -/
lemma Table.written_congr (h : table[k]? = table'[k]?) :
    table.written k v = table'.written k v := by
  simp only [Table.written, Store.upsert, Store.write, Store.getOrDefault, Store.get, store, h]
  cases table'[k]? with
  | none => rfl
  | some bytes =>
    dsimp only
    cases Value.fromBytes bytes with
    | none => rfl
    | some value => rfl

lemma Table.upsert_eq :
    (table.upsert k fun channel => channel.applyRetainer v) =
      (table.written k v).map fun value => table.insert k value.encode := by
  rw [upsert, written]
  cases table.store.upsert k fun channel => channel.applyRetainer v with
  | error e => rfl
  | ok x => rfl

/-- One visit more, before those of a run from the table that it leaves. -/
lemma Performs.cons {value : Value} {done rest : List (Keytag × List Retainer)}
    {result : Except DbError Unit × Table} (hk : k ∉ (done ++ rest).map Prod.fst)
    (hvalue : table.written k v = .ok value)
    (h : Performs (table.insert k value.encode) done rest result) :
    Performs table ((k, v) :: done) rest result := by
  have hsame : ∀ {k' v'}, (k', v') ∈ done ++ rest →
      Table.written (table.insert k value.encode) k' v' = table.written k' v' := by
    intro k' v' hmem
    have hne : k ≠ k' := fun heq => hk (heq ▸ List.mem_map.mpr ⟨_, hmem, rfl⟩)
    exact Table.written_congr (OrdMap.getElem?_insert_of_ne hne _)
  rw [List.map_append, List.mem_append, not_or] at hk
  constructor
  · intro k' v' hmem
    rcases List.mem_cons.mp hmem with heq | hmem
    · obtain ⟨rfl, rfl⟩ := Prod.mk.inj heq
      exact ⟨value, hvalue, (h.other _ hk.1).trans Std.ExtTreeMap.getElem?_insert_self⟩
    · obtain ⟨value', hvalue', hget⟩ := h.changed k' v' hmem
      exact ⟨value', (hsame (List.mem_append_left _ hmem)).symm.trans hvalue', hget⟩
  · intro k' hk'
    rw [List.map_cons, List.mem_cons, not_or] at hk'
    rw [h.other k' hk'.2, OrdMap.getElem?_insert_of_ne (Ne.symm hk'.1)]
  · refine h.ends.imp id ?_
    rintro ⟨k', v', rest', e, rfl, hfails, hresult⟩
    refine ⟨k', v', rest', e, rfl, ?_, hresult⟩
    rw [← hsame (List.mem_append_right _ List.mem_cons_self), hfails]

/-- The visits are made one after another, up to the first one whose change fails. -/
theorem performs_upsertAll {visits : List (Keytag × List Retainer)}
    (hnodup : (visits.map Prod.fst).Nodup) :
    ∃ done rest, visits = done ++ rest ∧ Performs table done rest (upsertAll table visits) := by
  induction visits generalizing table with
  | nil => exact ⟨[], [], rfl, by simp, fun _ _ => rfl, .inl ⟨rfl, rfl⟩⟩
  | cons x visits ih =>
    obtain ⟨k, v⟩ := x
    rw [List.map_cons, List.nodup_cons] at hnodup
    cases hwritten : table.written k v with
    | error e =>
      have hrun : upsertAll table ((k, v) :: visits) = (.error e, table) := by
        rw [upsertAll, Table.upsert_eq, hwritten]
        rfl
      rw [hrun]
      exact ⟨[], _, rfl, by simp, fun _ _ => rfl, .inr ⟨k, v, visits, e, rfl, hwritten, rfl⟩⟩
    | ok value =>
      have hrun : upsertAll table ((k, v) :: visits) =
          upsertAll (table.insert k value.encode) visits := by
        rw [upsertAll, Table.upsert_eq, hwritten]
        rfl
      rw [hrun]
      obtain ⟨done, rest, rfl, hperforms⟩ := @ih (table.insert k value.encode) hnodup.2
      exact ⟨(k, v) :: done, rest, rfl, hperforms.cons hnodup.1 hwritten⟩

end Runs

/-- The keys of both sides come once, in order, with what each side has.  So every keytag that is
known or retained is visited once, and is given what is found for it, which is nothing just when it
is not retained; the visits are made in this order, up to the first one whose change fails. -/
theorem sync_retainers_once :
    (∀ (K V : Type) [Ord K] [Std.TransOrd K] [Std.LawfulEqOrd K] (left : List K)
        (right : OrdMap K V), (left.Pairwise fun a b => compare a b = .lt) →
      Merges left right.toList (CoIter.new left right).items) ∧
    ∀ (hash : Kernel.ScriptHash) (own : VerifyingKey) (params : ChannelParameters) (table : Table)
        (utxos : OrdMap OutputReference Kernel.Output),
      VisitsOnce (fun k => table.contains k) (Retained hash own params utxos)
          (visits hash own params table utxos) ∧
        (∀ k v, (k, v) ∈ visits hash own params table utxos →
          v = OrdMap.valuesOf (candidates hash own params utxos) k) ∧
        ∃ done rest, visits hash own params table utxos = done ++ rest ∧
          Performs table done rest (syncRetainers hash own params table utxos) := by
  refine ⟨fun _ _ _ _ _ _ right hleft => CoIter.merges_new right hleft, ?_⟩
  intro hash own params table utxos
  have honce : VisitsOnce (fun k => table.contains k) (Retained hash own params utxos)
      (visits hash own params table utxos) := visits_once
  exact ⟨honce, fun _ _ => eq_valuesOf_of_mem_visits, performs_upsertAll honce.nodup⟩

namespace Sample

/-- A closed channel on chain. -/
def closedUtxos : OrdMap OutputReference Kernel.Output :=
  (∅ : OrdMap OutputReference Kernel.Output).insert ⟨List.replicate 32 0, 0⟩ Tx2.Sample.elapsing

/-- A closed channel. -/
def closedChannel : Tx.Channel :=
  ⟨Tx2.Sample.constants, 1_000_000, .closed 0 [] (.fromMillis 1_700_000_000_100)⟩

/-- The server knows the channel, but cannot read what it has of it. -/
def unreadable : Table := (∅ : Table).insert (keytagOf closedChannel) []

lemma tryFrom_elapsing :
    Tx.Channel.tryFrom Tx2.Sample.hash Tx2.Sample.elapsing = .ok closedChannel := by
  rw [Tx.Channel.tryFrom, Tx2.Sample.tryFrom_elapsing]
  rfl

lemma onChain_closed : OnChain Tx2.Sample.hash closedUtxos closedChannel :=
  ⟨_, _, Std.ExtTreeMap.getElem?_insert_self, tryFrom_elapsing⟩

lemma not_retained_closed (own : VerifyingKey) (params : ChannelParameters) (k : Keytag) :
    ¬Retained Tx2.Sample.hash own params closedUtxos k := by
  rintro ⟨channel, ⟨oref, output, houtput, hread⟩, -, hfits, -⟩
  rw [closedUtxos, Std.ExtTreeMap.getElem?_insert] at houtput
  split_ifs at houtput
  · obtain rfl := Option.some.inj houtput
    obtain rfl := Except.ok.inj (tryFrom_elapsing.symm.trans hread)
    rw [fits, Bool.and_eq_true] at hfits
    cases hfits.2
  · simp at houtput

lemma written_unreadable (v : List Retainer) :
    unreadable.written (keytagOf closedChannel) v = .error .corrupt := by
  have hentry : unreadable[keytagOf closedChannel]? = some [] :=
    Std.ExtTreeMap.getElem?_insert_self
  have hbytes : Value.fromBytes [] = none := rfl
  simp only [Table.written, Store.upsert, Store.write, Store.getOrDefault, Store.get, Table.store,
    hentry, hbytes]
  rfl

/-- The channel is visited, and is given nothing. -/
lemma mem_visits_closed (own : VerifyingKey) (params : ChannelParameters) :
    (keytagOf closedChannel, []) ∈
      visits Tx2.Sample.hash own params unreadable closedUtxos := by
  have honce : VisitsOnce _ _ (visits Tx2.Sample.hash own params unreadable closedUtxos) :=
    visits_once
  have hknown : unreadable.contains (keytagOf closedChannel) :=
    Std.ExtTreeMap.contains_insert_self
  obtain ⟨⟨k, v⟩, hv, rfl⟩ := List.mem_map.mp ((honce.mem_iff _).mpr (.inl hknown))
  obtain rfl := (honce.nil_iff _ v hv).mpr (not_retained_closed own params _)
  exact hv

end Sample

/-- A closed channel is on chain, and is given nothing; and an entry that cannot be read is visited
without being changed. -/
theorem not_sync_retainers_once :
    (¬∀ (hash : Kernel.ScriptHash) (own : VerifyingKey) (params : ChannelParameters)
        (table : Table) (utxos : OrdMap OutputReference Kernel.Output),
      VisitsOnce (fun k => table.contains k)
        (fun k => ∃ channel, OnChain hash utxos channel ∧ keytagOf channel = k)
        (visits hash own params table utxos)) ∧
    ¬∀ (hash : Kernel.ScriptHash) (own : VerifyingKey) (params : ChannelParameters)
        (table : Table) (utxos : OrdMap OutputReference Kernel.Output),
      Performs table (visits hash own params table utxos) []
        (syncRetainers hash own params table utxos) := by
  have hmem := Sample.mem_visits_closed Tx2.Sample.constants.subVkey ⟨.fromSecs 0, 32⟩
  constructor
  · intro h
    exact ((h _ _ _ _ _).nil_iff _ _ hmem).mp rfl ⟨_, Sample.onChain_closed, rfl⟩
  · intro h
    obtain ⟨value, hvalue, -⟩ := (h _ _ _ _ _).changed _ _ hmem
    rw [Sample.written_unreadable] at hvalue
    cases hvalue

end Konduit.Server
