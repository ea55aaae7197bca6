import Konduit.Kernel.Transaction
import Konduit.Lib.OrdMap
import Konduit.Lib.Result

/-!
# The addressbook

Labels for addresses, one-to-one.  Only the entries are kept on disk; the labels by address are
made of them when they are read.  Whatever is done to an addressbook, either of its maps is the
other one backwards (`Addressbook.inverse`), and what is saved is read as it was (`load_save`).
-/

open Lib

namespace Konduit.Session

/-- What is asked of addresses: their text, and their parts. -/
structure AddressFormat (Address : Type) where
  display : Address → String
  parse : String → Option Address
  payment : Address → Kernel.Credential
  delegation : Address → Option Kernel.Credential

/-- No two addresses have the same text, and a text is read as its address. -/
structure AddressFormat.Faithful {Address : Type} (format : AddressFormat Address) : Prop where
  display_inj : Function.Injective format.display
  parse_display : ∀ address, format.parse (format.display address) = some address

/-- Why an addressbook refuses an operation. -/
inductive AddressbookError where
  | alreadyExists
  | labelTaken (label : String)
  | notFound (label : String)
  | addressTaken (address existing new : String)
  | unresolved (input : String)
deriving DecidableEq

variable {Address : Type} {format : AddressFormat Address}

/-- The labels by the text of their address. -/
def Inverse (format : AddressFormat Address) (entries : OrdMap String Address)
    (byAddress : OrdMap String String) : Prop :=
  ∀ label text : String, byAddress[text]? = some label ↔
    ∃ address, entries[label]? = some address ∧ format.display address = text

/-- Addresses by their labels, and labels by the texts of their addresses. -/
structure Addressbook (format : AddressFormat Address) where
  entries : OrdMap String Address
  byAddress : OrdMap String String
  inverse : Inverse format entries byAddress

/-! ### Two maps in step -/

namespace Inverse

variable {entries : OrdMap String Address} {byAddress : OrdMap String String} {label : String}
  {address : Address}

lemma empty : Inverse format ∅ ∅ := fun label text => by simp

/-- A label and an address of which neither is there. -/
lemma insert (h : Inverse format entries byAddress) (hlabel : entries[label]? = none)
    (haddress : byAddress[format.display address]? = none) :
    Inverse format (entries.insert label address)
      (byAddress.insert (format.display address) label) := by
  intro label' text
  by_cases htext : format.display address = text
  · -- the text is new: no other label has it
    subst htext
    rw [Std.ExtTreeMap.getElem?_insert_self, Option.some.injEq]
    constructor
    · rintro rfl
      exact ⟨address, Std.ExtTreeMap.getElem?_insert_self, rfl⟩
    · rintro ⟨address', hget, hdisplay⟩
      by_contra hne
      rw [OrdMap.getElem?_insert_of_ne hne] at hget
      rw [(h label' _).mpr ⟨address', hget, hdisplay⟩] at haddress
      cases haddress
  · rw [OrdMap.getElem?_insert_of_ne htext, h label' text]
    refine exists_congr fun address' => and_congr_left fun hdisplay => ?_
    by_cases heq : label = label'
    · subst heq
      rw [hlabel, Std.ExtTreeMap.getElem?_insert_self, Option.some.injEq]
      refine iff_of_false (by simp) fun hsame => htext ?_
      rw [hsame, hdisplay]
    · rw [OrdMap.getElem?_insert_of_ne heq]

/-- A label and the text of its address. -/
lemma erase (h : Inverse format entries byAddress) (hget : entries[label]? = some address) :
    Inverse format (entries.erase label) (byAddress.erase (format.display address)) := by
  have hlabel := (h label (format.display address)).mpr ⟨address, hget, rfl⟩
  intro label' text
  by_cases htext : format.display address = text
  · subst htext
    rw [Std.ExtTreeMap.getElem?_erase_self]
    refine iff_of_false (by simp) ?_
    rintro ⟨address', hget', hdisplay⟩
    have hne : label ≠ label' := by
      rintro rfl
      rw [Std.ExtTreeMap.getElem?_erase_self] at hget'
      cases hget'
    rw [OrdMap.getElem?_erase_of_ne hne] at hget'
    -- two labels would have this text
    have hlabel' := (h label' _).mpr ⟨address', hget', hdisplay⟩
    exact hne (Option.some.inj (hlabel.symm.trans hlabel'))
  · rw [OrdMap.getElem?_erase_of_ne htext, h label' text]
    refine exists_congr fun address' => and_congr_left fun hdisplay => ?_
    by_cases heq : label = label'
    · subst heq
      rw [hget, Std.ExtTreeMap.getElem?_erase_self]
      refine iff_of_false (fun hsame => htext ?_) (by simp)
      rw [Option.some.inj hsame, hdisplay]
    · rw [OrdMap.getElem?_erase_of_ne heq]

end Inverse

/-! ### Reading the entries -/

/-- Enter the label of an address, unless another label has its text. -/
def enter (format : AddressFormat Address) (byAddress : OrdMap String String)
    (x : String × Address) : Except AddressbookError (OrdMap String String) :=
  match byAddress[format.display x.2]? with
  | some existing => .error (.addressTaken (format.display x.2) existing x.1)
  | none => .ok (byAddress.insert (format.display x.2) x.1)

/-- The labels by address, unless two labels have the same one. -/
def indexByAddress (format : AddressFormat Address) (entries : List (String × Address)) :
    Except AddressbookError (OrdMap String String) :=
  entries.foldlM (enter format) ∅

/-- The text of an address, with its label. -/
def swapped (format : AddressFormat Address) (x : String × Address) : String × String :=
  (format.display x.2, x.1)

lemma enter_eq_ok_iff {start byAddress : OrdMap String String} {x : String × Address} :
    enter format start x = .ok byAddress ↔
      start[format.display x.2]? = none ∧ start.insert (format.display x.2) x.1 = byAddress := by
  rw [enter]
  cases start[format.display x.2]? <;> simp

lemma foldlM_enter_eq_ok_iff {entries : List (String × Address)}
    {start byAddress : OrdMap String String} :
    entries.foldlM (enter format) start = .ok byAddress ↔
      (entries.map fun x => format.display x.2).Nodup ∧
        (∀ x ∈ entries, start[format.display x.2]? = none) ∧
          (entries.map (swapped format)).foldl (fun m x => m.insert x.1 x.2) start = byAddress := by
  induction entries generalizing start with
  | nil => simp [pure, Except.pure]
  | cons x entries ih =>
    simp only [List.foldlM_cons, Result.bind_eq_ok, enter_eq_ok_iff, ih, List.map_cons,
      List.nodup_cons, List.forall_mem_cons, List.foldl_cons, List.mem_map, not_exists, not_and]
    -- the texts that follow are new, just when they are neither there nor the one put in
    have hnew : ∀ y, (start.insert (format.display x.2) x.1)[format.display y]? = none ↔
        format.display y ≠ format.display x.2 ∧ start[format.display y]? = none := by
      intro y
      by_cases heq : format.display x.2 = format.display y
      · simp [heq]
      · rw [OrdMap.getElem?_insert_of_ne heq, and_iff_right (Ne.symm heq)]
    constructor
    · rintro ⟨_, ⟨hget, rfl⟩, hnodup, hall, rfl⟩
      exact ⟨⟨fun y hy => ((hnew _).mp (hall y hy)).1, hnodup⟩,
        ⟨hget, fun y hy => ((hnew _).mp (hall y hy)).2⟩, rfl⟩
    · rintro ⟨⟨hne, hnodup⟩, ⟨hget, hall⟩, rfl⟩
      exact ⟨_, ⟨hget, rfl⟩, hnodup, fun y hy => (hnew _).mpr ⟨hne y hy, hall y hy⟩, rfl⟩

lemma indexByAddress_eq_ok_iff {entries : List (String × Address)}
    {byAddress : OrdMap String String} :
    indexByAddress format entries = .ok byAddress ↔
      (entries.map fun x => format.display x.2).Nodup ∧
        (entries.map (swapped format)).foldl (fun m x => m.insert x.1 x.2) ∅ = byAddress := by
  simp [indexByAddress, foldlM_enter_eq_ok_iff]

/-- What is made of entries whose addresses have different texts. -/
lemma inverse_of_index {entries : OrdMap String Address} {byAddress : OrdMap String String}
    (h : indexByAddress format entries.toList = .ok byAddress) :
    Inverse format entries byAddress := by
  obtain ⟨hnodup, rfl⟩ := indexByAddress_eq_ok_iff.mp h
  intro label text
  have hkeys : ((entries.toList.map (swapped format)).map Prod.fst).Nodup := by
    rw [List.map_map]
    exact hnodup
  have hmem : (text, label) ∈ entries.toList.map (swapped format) ↔
      ∃ address, entries[label]? = some address ∧ format.display address = text := by
    simp only [swapped, List.mem_map, Prod.exists, Prod.mk.injEq, OrdMap.mem_toList_iff]
    constructor
    · rintro ⟨_, address, hget, hdisplay, rfl⟩
      exact ⟨address, hget, hdisplay⟩
    · rintro ⟨address, hget, hdisplay⟩
      exact ⟨label, address, hget, hdisplay, rfl⟩
  rw [← hmem]
  refine ⟨fun hget => ?_, OrdMap.getElem?_foldl_insert hkeys⟩
  exact (OrdMap.mem_of_getElem?_foldl_insert hget).resolve_right (by simp)

namespace Addressbook

/-- The addressbook of these entries, where no two share an address. -/
def tryFrom (format : AddressFormat Address) (entries : OrdMap String Address) :
    Except AddressbookError (Addressbook format) :=
  match h : indexByAddress format entries.toList with
  | .error e => .error e
  | .ok byAddress => .ok ⟨entries, byAddress, inverse_of_index h⟩

/-- No labels. -/
def empty : Addressbook format := ⟨∅, ∅, .empty⟩

section Operations

variable (self : Addressbook format)

/-- The address of a label. -/
def get (label : String) : Option Address := self.entries[label]?

/-- The label of an address. -/
def getLabel (address : Address) : Option String := self.byAddress[format.display address]?

/-- Give an address a label; neither may have another. -/
def insert [DecidableEq Address] (label : String) (address : Address) :
    Except AddressbookError (Addressbook format) :=
  match hlabel : self.entries[label]? with
  | some existing =>
    if existing = address then .error .alreadyExists else .error (.labelTaken label)
  | none =>
    match haddress : self.byAddress[format.display address]? with
    | some existing => .error (.addressTaken (format.display address) existing label)
    | none => .ok ⟨_, _, self.inverse.insert hlabel haddress⟩

/-- Remove a label, with its address. -/
def remove (label : String) : Except AddressbookError (Address × Addressbook format) :=
  match hget : self.entries[label]? with
  | none => .error (.notFound label)
  | some address => .ok (address, ⟨_, _, self.inverse.erase hget⟩)

/-- Take away the label of an address, if it has one. -/
def removeByAddress (address : Address) : Option String × Addressbook format :=
  match hlabel : self.byAddress[format.display address]? with
  | none => (none, self)
  | some label =>
    (some label, ⟨self.entries.erase label, self.byAddress.erase (format.display address), by
      obtain ⟨address', hget, hdisplay⟩ := (self.inverse _ _).mp hlabel
      rw [← hdisplay]
      exact self.inverse.erase hget⟩)

/-- A label comes before the text of an address. -/
def resolve (input : String) : Except AddressbookError Address :=
  match self.get input with
  | some address => .ok address
  | none =>
    match format.parse input with
    | some address => .ok address
    | none => .error (.unresolved input)

/-- What is kept on disk. -/
def save : List (String × String) := self.entries.toList.map fun x => (x.1, format.display x.2)

end Operations

/-- Why a document is not loaded. -/
inductive LoadError where
  | address (text : String)
  | addressbook (e : AddressbookError)

/-- Enter what a member of the document says, in place of what was there. -/
def readEntry (format : AddressFormat Address) (entries : OrdMap String Address)
    (x : String × String) : Except LoadError (OrdMap String Address) :=
  match format.parse x.2 with
  | none => .error (.address x.2)
  | some address => .ok (entries.insert x.1 address)

/-- The addressbook of a document, from the members of its object. -/
def load (format : AddressFormat Address) (members : List (String × String)) :
    Except LoadError (Addressbook format) := do
  let entries ← members.foldlM (readEntry format) ∅
  (tryFrom format entries).mapError .addressbook

/-! ### What the operations do -/

section Effects

variable {self other : Addressbook format} {label : String} {address : Address}

/-- The label of an address is that of its text. -/
lemma getLabel_eq_some_iff (hformat : format.Faithful) :
    self.getLabel address = some label ↔ self.get label = some address := by
  rw [getLabel, get, self.inverse]
  constructor
  · rintro ⟨address', hget, hdisplay⟩
    rw [hget, hformat.display_inj hdisplay]
  · exact fun hget => ⟨address, hget, rfl⟩

lemma insert_eq_ok [DecidableEq Address] (h : self.insert label address = .ok other) :
    self.get label = none ∧ self.getLabel address = none ∧
      other.entries = self.entries.insert label address ∧
        other.byAddress = self.byAddress.insert (format.display address) label := by
  rw [insert] at h
  split at h
  · split_ifs at h
  · rename_i hlabel
    split at h
    · cases h
    · rename_i haddress
      obtain rfl := Except.ok.inj h
      exact ⟨hlabel, haddress, rfl, rfl⟩

lemma insert_empty [DecidableEq Address] (label : String) (address : Address) :
    ∃ book : Addressbook format, empty.insert label address = .ok book := by
  rw [insert]
  split
  · rename_i hlabel
    simp [empty] at hlabel
  · split
    · rename_i haddress
      simp [empty] at haddress
    · exact ⟨_, rfl⟩

/-- What is put in is there, with what was there. -/
lemma get_of_insert [DecidableEq Address] (h : self.insert label address = .ok other) :
    other.get label = some address ∧
      ∀ label' address', self.get label' = some address' → other.get label' = some address' := by
  obtain ⟨hnone, -, hentries, -⟩ := insert_eq_ok h
  refine ⟨by rw [get, hentries, Std.ExtTreeMap.getElem?_insert_self], ?_⟩
  intro label' address' hget
  have hne : label ≠ label' := by
    rintro rfl
    rw [hnone] at hget
    cases hget
  rw [get, hentries, OrdMap.getElem?_insert_of_ne hne]
  exact hget

/-- What is there already is not put in again. -/
lemma insert_eq_alreadyExists [DecidableEq Address]
    (h : self.insert label address = .error .alreadyExists) : self.get label = some address := by
  rw [insert] at h
  split at h
  · rename_i existing hlabel
    split_ifs at h with heq
    · rw [get, hlabel, heq]
    · cases h
  · split at h <;> cases h

/-- The other labels stay. -/
lemma getLabel_removeByAddress (hformat : format.Faithful) {address' : Address}
    (hne : address ≠ address') :
    (self.removeByAddress address).2.getLabel address' = self.getLabel address' := by
  rw [removeByAddress]
  split
  · rfl
  · exact OrdMap.getElem?_erase_of_ne (hformat.display_inj.ne hne)

lemma getLabel_removeByAddress_self :
    (self.removeByAddress address).2.getLabel address = none := by
  rw [removeByAddress]
  split
  · rename_i hlabel
    exact hlabel
  · exact Std.ExtTreeMap.getElem?_erase_self

end Effects

/-! ### What is read again -/

section Read

/-- The labels by address are determined by the entries. -/
lemma eq_of_entries {a b : Addressbook format} (h : a.entries = b.entries) : a = b := by
  obtain ⟨entries, byAddress, hinverse⟩ := a
  obtain ⟨_, byAddress', hinverse'⟩ := b
  obtain rfl : entries = _ := h
  have heq : byAddress = byAddress' := Std.ExtTreeMap.ext_getElem? fun text =>
    Option.ext fun label => (hinverse label text).trans (hinverse' label text).symm
  subst heq
  rfl

lemma entries_of_tryFrom {entries : OrdMap String Address} {book : Addressbook format}
    (h : tryFrom format entries = .ok book) : book.entries = entries := by
  rw [tryFrom] at h
  split at h
  · cases h
  · obtain rfl := Except.ok.inj h
    rfl

/-- The entries are an addressbook just when no two labels have the same text. -/
lemma tryFrom_isOk_iff {entries : OrdMap String Address} :
    (∃ book, tryFrom format entries = .ok book) ↔
      ∀ (label label' : String) (address address' : Address), entries[label]? = some address →
        entries[label']? = some address' → format.display address = format.display address' →
          label = label' := by
  have hnodup : (∃ book, tryFrom format entries = .ok book) ↔
      (entries.toList.map fun x => format.display x.2).Nodup := by
    constructor
    · rintro ⟨book, h⟩
      rw [tryFrom] at h
      split at h
      · cases h
      · rename_i hindex
        exact (indexByAddress_eq_ok_iff.mp hindex).1
    · intro h
      rw [tryFrom]
      split
      · rename_i hindex
        rw [indexByAddress_eq_ok_iff.mpr ⟨h, rfl⟩] at hindex
        cases hindex
      · exact ⟨_, rfl⟩
  rw [hnodup]
  constructor
  · intro h label label' address address' hget hget' hdisplay
    have hinj := List.inj_on_of_nodup_map h (OrdMap.mem_toList_iff.mpr hget)
      (OrdMap.mem_toList_iff.mpr hget') hdisplay
    exact congrArg Prod.fst hinj
  · intro h
    refine (List.Nodup.of_map _ (OrdMap.nodup_keys entries)).map_on fun x hx y hy hdisplay => ?_
    obtain ⟨label, address⟩ := x
    obtain ⟨label', address'⟩ := y
    have hget := OrdMap.mem_toList_iff.mp hx
    have hget' := OrdMap.mem_toList_iff.mp hy
    obtain rfl := h label label' address address' hget hget' hdisplay
    rw [Option.some.inj (hget.symm.trans hget')]

/-- What the last member with a label says. -/
def said (members : List (String × String)) (label : String) : Option String :=
  (members.reverse.find? fun x => x.1 = label).map Prod.snd

lemma said_concat (members : List (String × String)) (x : String × String) (label : String) :
    said (members ++ [x]) label = if x.1 = label then some x.2 else said members label := by
  rw [said, List.reverse_append, List.reverse_singleton, List.singleton_append, List.find?_cons]
  by_cases h : x.1 = label <;> simp [h, said]

/-- The entries that are read are what was said last of each label. -/
lemma said_of_readEntry {members : List (String × String)} {entries : OrdMap String Address}
    (h : members.foldlM (readEntry format) ∅ = .ok entries) :
    (∀ x ∈ members, (format.parse x.2).isSome) ∧
      ∀ label : String, entries[label]? = (said members label).bind format.parse := by
  induction members using List.reverseRecOn generalizing entries with
  | nil =>
    obtain rfl := Except.ok.inj h
    refine ⟨List.forall_mem_nil _, fun label => ?_⟩
    simp [said]
  | append_singleton members x ih =>
    simp only [List.foldlM_append, List.foldlM_cons, List.foldlM_nil, bind_pure,
      Result.bind_eq_ok] at h
    obtain ⟨start, hstart, hread⟩ := h
    obtain ⟨hall, hget⟩ := ih hstart
    rw [readEntry] at hread
    split at hread
    · cases hread
    · rename_i address hparse
      obtain rfl := Except.ok.inj hread
      refine ⟨List.forall_mem_append.mpr ⟨hall, ?_⟩, fun label => ?_⟩
      · exact List.forall_mem_singleton.mpr (by rw [hparse]; rfl)
      · rw [said_concat]
        by_cases heq : x.1 = label
        · subst heq
          rw [Std.ExtTreeMap.getElem?_insert_self, if_pos rfl, Option.bind_some, hparse]
        · rw [OrdMap.getElem?_insert_of_ne heq, if_neg heq, hget]

lemma exists_readEntry {members : List (String × String)}
    (h : ∀ x ∈ members, (format.parse x.2).isSome) (start : OrdMap String Address) :
    ∃ entries, members.foldlM (readEntry format) start = .ok entries := by
  induction members generalizing start with
  | nil => exact ⟨start, rfl⟩
  | cons x members ih =>
    obtain ⟨hx, hmembers⟩ := List.forall_mem_cons.mp h
    obtain ⟨address, hparse⟩ := Option.isSome_iff_exists.mp hx
    obtain ⟨entries, hentries⟩ := ih hmembers (start.insert x.1 address)
    refine ⟨entries, ?_⟩
    rw [List.foldlM_cons, readEntry, hparse]
    exact hentries

/-- A document is read just when each member names an address, and the addressbook that has for
each label what is said of it last is the one that is read. -/
lemma load_eq_ok_iff {members : List (String × String)} {book : Addressbook format} :
    load format members = .ok book ↔
      (∀ x ∈ members, (format.parse x.2).isSome) ∧
        ∀ label, book.get label = (said members label).bind format.parse := by
  simp only [load, Result.bind_eq_ok, Result.mapError_eq_ok]
  constructor
  · rintro ⟨entries, hread, hbook⟩
    obtain ⟨hall, hget⟩ := said_of_readEntry hread
    refine ⟨hall, fun label => ?_⟩
    rw [get, entries_of_tryFrom hbook, hget]
  · rintro ⟨hall, hget⟩
    obtain ⟨entries, hread⟩ := exists_readEntry hall ∅
    have hentries : book.entries = entries := Std.ExtTreeMap.ext_getElem? fun label =>
      (hget label).trans ((said_of_readEntry hread).2 label).symm
    -- the labels of an addressbook have different texts
    have hdistinct : ∀ (label label' : String) (address address' : Address),
        entries[label]? = some address → entries[label']? = some address' →
          format.display address = format.display address' → label = label' := by
      intro label label' address address' hlabel hlabel' hdisplay
      rw [← hentries] at hlabel hlabel'
      have htext := (book.inverse label _).mpr ⟨address, hlabel, rfl⟩
      have htext' := (book.inverse label' _).mpr ⟨address', hlabel', hdisplay.symm⟩
      exact Option.some.inj (htext.symm.trans htext')
    obtain ⟨book', hbook'⟩ := tryFrom_isOk_iff.mpr hdistinct
    obtain rfl := eq_of_entries (hentries.trans (entries_of_tryFrom hbook').symm)
    exact ⟨entries, hread, hbook'⟩

/-- Of each label what is saved is said once. -/
lemma said_save (self : Addressbook format) (label : String) :
    said self.save label = (self.get label).map format.display := by
  have hkeys : (self.save.map Prod.fst).Nodup := by
    rw [save, List.map_map]
    exact OrdMap.nodup_keys self.entries
  have hmem : ∀ text, (label, text) ∈ self.save ↔
      (self.get label).map format.display = some text := by
    intro text
    simp only [save, List.mem_map, Prod.exists, Prod.mk.injEq, OrdMap.mem_toList_iff, get,
      Option.map_eq_some_iff]
    constructor
    · rintro ⟨_, address, hget, rfl, hdisplay⟩
      exact ⟨address, hget, hdisplay⟩
    · rintro ⟨address, hget, hdisplay⟩
      exact ⟨label, address, hget, rfl, hdisplay⟩
  refine Option.ext fun text => ?_
  rw [← hmem, said, Option.map_eq_some_iff]
  constructor
  · rintro ⟨⟨label', _⟩, hfind, rfl⟩
    obtain rfl : label' = label := by simpa using List.find?_some hfind
    exact List.mem_reverse.mp (List.mem_of_find?_eq_some hfind)
  · intro htext
    cases hfind : self.save.reverse.find? fun x => x.1 = label with
    | none =>
      have hnone := List.find?_eq_none.mp hfind (label, text) (List.mem_reverse.mpr htext)
      simp at hnone
    | some x =>
      obtain ⟨label', text'⟩ := x
      obtain rfl : label' = label := by simpa using List.find?_some hfind
      have hx := List.mem_reverse.mp (List.mem_of_find?_eq_some hfind)
      exact ⟨_, rfl, congrArg Prod.snd (List.inj_on_of_nodup_map hkeys hx htext rfl)⟩

end Read

/-- An addressbook on disk: what is read of a document, what is saved, and what is found in either
direction. -/
structure ReadsBack (format : AddressFormat Address) : Prop where
  load_iff : ∀ (members : List (String × String)) (book : Addressbook format),
    load format members = .ok book ↔
      (∀ x ∈ members, (format.parse x.2).isSome) ∧
        ∀ label, book.get label = (said members label).bind format.parse
  load_save : ∀ book : Addressbook format, load format book.save = .ok book
  oneToOne : ∀ (book : Addressbook format) (label : String) (address : Address),
    book.getLabel address = some label ↔ book.get label = some address

/-- **Addressbooks.**  What is saved is read back, and labels and addresses are one-to-one in
whatever is read. -/
theorem reads_back (hformat : format.Faithful) : ReadsBack format := by
  refine ⟨fun members book => load_eq_ok_iff, fun book => load_eq_ok_iff.mpr ⟨?_, fun label => ?_⟩,
    fun book label address => getLabel_eq_some_iff hformat⟩
  · intro x hx
    obtain ⟨y, -, rfl⟩ := List.mem_map.mp hx
    rw [hformat.parse_display]
    rfl
  · rw [said_save]
    cases book.get label with
    | none => rfl
    | some address => rw [Option.map_some, Option.bind_some, hformat.parse_display]

end Addressbook

namespace Sample

/-- Addresses that are their text; one of them is that of a script. -/
def textFormat (hash : Kernel.ScriptHash) : AddressFormat String where
  display address := address
  parse := some
  payment address := if address = "konduit1" then .script hash
    else .verificationKey (List.replicate 28 1)
  delegation _ := none

lemma faithful (hash : Kernel.ScriptHash) : (textFormat hash).Faithful :=
  ⟨fun _ _ h => h, fun _ => rfl⟩

end Sample

theorem Addressbook.reads_back_of_text : Addressbook.ReadsBack (Sample.textFormat []) :=
  Addressbook.reads_back (Sample.faithful [])

end Konduit.Session
