import Konduit.Lib.Codec

/-!
# Codecs of arrays

A list is read from an array of either framing, and a record from one that is closed by a break:
its reader takes the fields one after another and then expects a break, whatever the head said.
A record of definite length is therefore not read, and nothing that comes after it makes up for
the break that it lacks (`Body.ofFields`).
-/

namespace Lib.Plutus

open Cbor Encoding

variable {ok : List Token → Prop} {α β : Type}

/-! ## Arrays -/

/-- A reader of what is in an array, with its head, and a reader of the items as data. -/
structure Body (ok : List Token → Prop) (α : Type) where
  read : Bytes → Option (α × Bytes)
  ofItems : List Data → Option α
  Fits : List Data → Prop
  Framed : Framing → List Encoding → Prop
  isSome_ofItems : ∀ ds, (ofItems ds).isSome ↔ Fits ds
  head : ∀ {s x b}, ok s → read (encodeAll s) = some (x, b) →
    ∃ (f : Framing) (n : ℕ) (s' : List Token), s = f.array n :: s'
  read_stop : ∀ b, read (0xff :: b) = none
  leaves : ∀ {s x b}, ok s → read (encodeAll s) = some (x, b) → Leaves s b 0
  sound : ∀ {f es s x b}, ok (body f es ++ s) →
    read (encodeAll (body f es ++ s)) = some (x, b) →
    (b = encodeAll s ∧ Framed f es ∧ ofItems (dataAll es) = some x) ∨ Leaves (body f es ++ s) b 1
  complete : ∀ {f es x}, (∀ token ∈ body f es, token.Fits) → Framed f es →
    ofItems (dataAll es) = some x → ∀ b, read (encodeAll (body f es) ++ b) = some (x, b)

/-- The codec of the lists that hold what is in the arrays. -/
@[simps read ofData]
def Codec.ofBody (array : Body ok α) : Codec ok α where
  read := array.read
  ofData
    | .list ds => array.ofItems ds
    | _ => none
  Fits d := ∃ ds, d = .list ds ∧ array.Fits ds
  Framed e := ∃ f es, e = .list f es ∧ array.Framed f es
  isSome_ofData d := by cases d <;> simp [array.isSome_ofItems]
  read_stop := array.read_stop
  leaves := array.leaves
  sound {e s x b} hs hread := by
    obtain ⟨f, n, s', htokens⟩ := array.head hs hread
    obtain ⟨f, es, rfl⟩ := eq_list htokens
    rcases array.sound hs hread with ⟨hb, hframed, hdata⟩ | hleaves
    · exact Or.inl ⟨hb, ⟨f, es, rfl, hframed⟩, hdata⟩
    · exact Or.inr hleaves
  complete {e x} hvalid hframed hdata b := by
    obtain ⟨f, es, rfl, hframed⟩ := hframed
    exact array.complete hvalid hframed hdata b

lemma Framing.le_balance_array (f : Framing) (n : ℕ) : -1 ≤ (f.array n).balance := by
  cases f <;> simp [array, Token.balance]

lemma readArray_tokens [hok : IsInput ok] {s : List Token} (hs : ok s) {n : Option ℕ} {b : Bytes}
    (hread : readArray (encodeAll s) = some (n, b)) :
    ∃ (f : Framing) (k : ℕ) (s' : List Token), s = f.array k :: s' ∧ b = encodeAll s' ∧
      n = f.count k := by
  rcases readArray_encodeAll (hok.fits hs) hread with
    ⟨w, k, s', rfl, rfl, rfl⟩ | ⟨s', rfl, rfl, rfl⟩
  · exact ⟨.definite w, k, s', rfl, rfl, rfl⟩
  · exact ⟨.indefinite, 0, s', rfl, rfl, rfl⟩

/-! ## Records -/

/-- A reader of items one after another, and a reader of as many data values. -/
structure Fields (ok : List Token → Prop) (α : Type) where
  read : Bytes → Option (α × Bytes)
  ofItems : List Data → Option α
  Fits : List Data → Prop
  Framed : List Encoding → Prop
  isSome_ofItems : ∀ ds, (ofItems ds).isSome ↔ Fits ds
  leaves : ∀ {s x b}, ok s → read (encodeAll s) = some (x, b) → Leaves s b 0
  /-- The items are read, or more breaks than there should be, or some items are left, or items
  are read that come after. -/
  sound : ∀ {es s x b}, ok (tokensAll es ++ s) →
    read (encodeAll (tokensAll es ++ s)) = some (x, b) →
    (b = encodeAll s ∧ Framed es ∧ ofItems (dataAll es) = some x) ∨
    Leaves (tokensAll es ++ s) b 1 ∨ (∀ b', b ≠ 0xff :: b') ∨
    s.head? ≠ some .stop ∧ Leaves s b 0
  complete : ∀ {es x}, (∀ token ∈ tokensAll es, token.Fits) → Framed es →
    ofItems (dataAll es) = some x → ∀ b, read (encodeAll (tokensAll es) ++ b) = some (x, b)

namespace Fields

/-- No item. -/
@[simps read ofItems]
def nil [hok : IsInput ok] : Fields ok Unit where
  read b := some ((), b)
  ofItems
    | [] => some ()
    | _ => none
  Fits ds := ds = []
  Framed es := es = []
  isSome_ofItems ds := by cases ds <;> simp
  leaves {s x b} hs hread := by
    obtain ⟨-, rfl⟩ := Prod.mk.inj (Option.some.inj hread)
    exact ⟨[], s, rfl, rfl, le_rfl⟩
  sound {es s x b} hs hread := by
    obtain ⟨-, rfl⟩ := Prod.mk.inj (Option.some.inj hread)
    cases es with
    | nil => exact Or.inl ⟨rfl, rfl, rfl⟩
    | cons e es =>
      have hfits : ∀ token ∈ e.tokens, token.Fits := fun token ht =>
        hok.fits hs token (by simp [tokensAll, ht])
      refine Or.inr (Or.inr (Or.inl fun b' => ?_))
      rw [tokensAll, List.append_assoc]
      exact encodeAll_ne_break hfits b'
  complete {es x} hvalid hframed hdata b := by
    subst hframed
    rfl

/-- An item and the items after it. -/
@[simps read ofItems]
def cons [hok : IsInput ok] (codec : Codec ok α) (fields : Fields ok β) : Fields ok (α × β) where
  read b := (codec.read b).bind fun r => (fields.read r.2).bind fun r' => some ((r.1, r'.1), r'.2)
  ofItems
    | [] => none
    | d :: ds => (codec.ofData d).bind fun x => (fields.ofItems ds).bind fun y => some (x, y)
  Fits ds := ∃ d ds', ds = d :: ds' ∧ codec.Fits d ∧ fields.Fits ds'
  Framed es := ∃ e es', es = e :: es' ∧ codec.Framed e ∧ fields.Framed es'
  isSome_ofItems ds := by
    cases ds with
    | nil => simp
    | cons d ds =>
      have hiff : (∃ d' ds', d :: ds = d' :: ds' ∧ codec.Fits d' ∧ fields.Fits ds') ↔
          codec.Fits d ∧ fields.Fits ds := by
        simp
      rw [hiff, ← codec.isSome_ofData, ← fields.isSome_ofItems]
      show ((codec.ofData d).bind _).isSome = true ↔ _
      cases codec.ofData d <;> cases fields.ofItems ds <;> simp
  leaves {s x b} hs hread := by
    obtain ⟨⟨x₁, b₁⟩, h₁, hread⟩ := Option.bind_eq_some_iff.mp hread
    obtain ⟨⟨x₂, b₂⟩, h₂, hread⟩ := Option.bind_eq_some_iff.mp hread
    obtain ⟨rfl, rfl⟩ := Prod.mk.inj (Option.some.inj hread)
    obtain ⟨c, s', rfl, rfl, hc⟩ := codec.leaves hs h₁
    have hs' : ok s' := hok.drop hs
    exact (fields.leaves hs' h₂).prepend c (by simpa using hc)
  sound {es s x b} hs hread := by
    obtain ⟨⟨x₁, b₁⟩, h₁, hread⟩ := Option.bind_eq_some_iff.mp hread
    obtain ⟨⟨x₂, b₂⟩, h₂, hread⟩ := Option.bind_eq_some_iff.mp hread
    obtain ⟨rfl, rfl⟩ := Prod.mk.inj (Option.some.inj hread)
    cases es with
    | nil =>
      -- the item is one that comes after, and so not a break
      refine Or.inr (Or.inr (Or.inr ⟨fun hstop => ?_, ?_⟩))
      · obtain ⟨s', rfl⟩ := List.head?_eq_some_iff.mp hstop
        have hnone := codec.read_stop (encodeAll s')
        exact absurd (hnone.symm.trans h₁) (by simp)
      · obtain ⟨c, s', rfl, rfl, hc⟩ := codec.leaves hs h₁
        have hs' : ok s' := hok.drop hs
        exact (fields.leaves hs' h₂).prepend c (by simpa using hc)
    | cons e es =>
      rw [tokensAll, List.append_assoc] at hs h₁ ⊢
      have hbalance := e.balance_tokens
      rcases codec.sound hs h₁ with ⟨rfl, hframed, hdata⟩ | hleaves
      · rcases fields.sound (hok.drop hs) h₂ with ⟨hb, hframed', hdata'⟩ | hleaves | hrest
        · refine Or.inl ⟨hb, ⟨e, es, rfl, hframed, hframed'⟩, ?_⟩
          show (codec.ofData e.data).bind _ = _
          rw [hdata, Option.bind_some, hdata', Option.bind_some]
        · exact Or.inr (Or.inl (hleaves.prepend e.tokens (by simp [hbalance])))
        · exact Or.inr (Or.inr hrest)
      · obtain ⟨c, s', hc, rfl, hn⟩ := hleaves
        rw [hc] at hs ⊢
        have hs' : ok s' := hok.drop hs
        exact Or.inr (Or.inl ((fields.leaves hs' h₂).prepend c (by simpa using hn)))
  complete {es x} hvalid hframed hdata b := by
    obtain ⟨e, es, rfl, hframed, hframed'⟩ := hframed
    obtain ⟨x₁, h₁, hdata⟩ := Option.bind_eq_some_iff.mp hdata
    obtain ⟨x₂, h₂, hdata⟩ := Option.bind_eq_some_iff.mp hdata
    obtain rfl := Option.some.inj hdata
    have he : e.Valid := fun token ht => hvalid token (List.mem_append_left _ ht)
    have hes : ∀ token ∈ tokensAll es, token.Fits := fun token ht =>
      hvalid token (List.mem_append_right _ ht)
    have hread := codec.complete he hframed h₁ (encodeAll (tokensAll es) ++ b)
    rw [Encoding.encode] at hread
    rw [tokensAll, encodeAll_append, List.append_assoc, hread, Option.bind_some,
      fields.complete hes hframed' h₂ b, Option.bind_some]

/-- What a function makes of the items. -/
@[simps read ofItems]
def map (fields : Fields ok α) (f : α → β) : Fields ok β where
  read b := (fields.read b).map fun r => (f r.1, r.2)
  ofItems ds := (fields.ofItems ds).map f
  Fits := fields.Fits
  Framed := fields.Framed
  isSome_ofItems ds := by rw [Option.isSome_map, fields.isSome_ofItems]
  leaves {s x b} hs hread := by
    obtain ⟨⟨x₁, b₁⟩, h₁, heq⟩ := Option.map_eq_some_iff.mp hread
    obtain ⟨rfl, rfl⟩ := Prod.mk.inj heq
    exact fields.leaves hs h₁
  sound {es s x b} hs hread := by
    obtain ⟨⟨x₁, b₁⟩, h₁, heq⟩ := Option.map_eq_some_iff.mp hread
    obtain ⟨rfl, rfl⟩ := Prod.mk.inj heq
    rcases fields.sound hs h₁ with ⟨hb, hframed, hdata⟩ | hrest
    · exact Or.inl ⟨hb, hframed, by rw [hdata, Option.map_some]⟩
    · exact Or.inr hrest
  complete {es x} hvalid hframed hdata b := by
    obtain ⟨x₁, h₁, rfl⟩ := Option.map_eq_some_iff.mp hdata
    rw [fields.complete hvalid hframed h₁ b, Option.map_some]

end Fields

/-- The array that holds the fields of a record: it is closed by a break. -/
@[simps read ofItems]
def Body.ofFields [hok : IsInput ok] (fields : Fields ok α) : Body ok α where
  read := readFramed fields.read
  ofItems := fields.ofItems
  Fits := fields.Fits
  Framed f es := f = .indefinite ∧ fields.Framed es
  isSome_ofItems := fields.isSome_ofItems
  head {s x b} hs hread := by
    obtain ⟨⟨n, b₁⟩, h₁, -⟩ := Option.bind_eq_some_iff.mp hread
    obtain ⟨f, k, s', hs, -⟩ := readArray_tokens hs h₁
    exact ⟨f, k, s', hs⟩
  read_stop b := rfl
  leaves {s x b} hs hread := by
    obtain ⟨⟨n, b₁⟩, h₁, hread⟩ := Option.bind_eq_some_iff.mp hread
    obtain ⟨⟨x₂, b₂⟩, h₂, hread⟩ := Option.bind_eq_some_iff.mp hread
    obtain ⟨⟨u, b₃⟩, h₃, hread⟩ := Option.bind_eq_some_iff.mp hread
    obtain ⟨rfl, rfl⟩ := Prod.mk.inj (Option.some.inj hread)
    obtain ⟨f, k, s', rfl, rfl, -⟩ := readArray_tokens hs h₁
    have hs' : ok s' := hok.tail hs
    have hhead := f.le_balance_array k
    refine ((fields.leaves hs' h₂).stop (hok.fits hs') h₃).prepend [f.array k] ?_
    rw [balance_cons, balance_nil]
    omega
  sound {f es s x b} hs hread := by
    rw [body_append] at hs hread ⊢
    obtain ⟨⟨n, b₁⟩, h₁, hread⟩ := Option.bind_eq_some_iff.mp hread
    obtain ⟨⟨x₂, b₂⟩, h₂, hread⟩ := Option.bind_eq_some_iff.mp hread
    obtain ⟨⟨u, b₃⟩, h₃, hread⟩ := Option.bind_eq_some_iff.mp hread
    obtain ⟨rfl, rfl⟩ := Prod.mk.inj (Option.some.inj hread)
    obtain ⟨f', k, s', htokens, rfl, -⟩ := readArray_tokens hs h₁
    obtain rfl := (List.cons.inj htokens).2
    have hs' := hok.tail hs
    have hitems := balance_tokensAll es
    rcases fields.sound hs' h₂ with ⟨rfl, hframed, hdata⟩ | hleaves | hrest | ⟨hstop, hleaves⟩
    · cases f with
      | definite w =>
        -- the break is one that comes after
        obtain ⟨s', rfl, rfl⟩ := readStop_encodeAll (hok.fits (hok.drop hs')) h₃
        have hleaves : Leaves (.stop :: s') (encodeAll s') 1 := ⟨[.stop], s', rfl, rfl, le_rfl⟩
        refine Or.inr (hleaves.prepend (.array w es.length :: tokensAll es) ?_)
        rw [balance_cons, hitems]
        rfl
      | indefinite =>
        obtain ⟨-, rfl⟩ := Prod.mk.inj (Option.some.inj h₃)
        exact Or.inl ⟨rfl, ⟨rfl, hframed⟩, hdata⟩
    · have hhead := f.le_balance_array es.length
      refine Or.inr ((hleaves.stop (hok.fits hs') h₃).prepend [f.array es.length] ?_)
      rw [balance_cons, balance_nil]
      omega
    · exact (hrest _ (eq_of_readStop h₃)).elim
    · cases f with
      | definite w =>
        have hfits := hok.fits (hok.drop hs')
        refine Or.inr ((hleaves.stop hfits h₃).prepend (.array w es.length :: tokensAll es) ?_)
        rw [balance_cons, hitems]
        rfl
      | indefinite => exact (hstop rfl).elim
  complete {f es x} hvalid hframed hdata b := by
    obtain ⟨rfl, hframed⟩ := hframed
    have hes : ∀ token ∈ tokensAll es, token.Fits := fun token ht =>
      hvalid token (by simp [body, ht])
    have hread := fields.complete hes hframed hdata
    rw [encodeAll_body_indefinite]
    exact readFramed_framed b hread

/-! ## Lists -/

section Lists

variable [hok : IsInput ok] (codec : Codec ok α) {s : List Token} {xs : List α} {b : Bytes}

include hok

lemma readMany_leaves {n : ℕ} (hs : ok s)
    (hread : readMany codec.read n (encodeAll s) = some (xs, b)) : Leaves s b 0 := by
  induction n generalizing s xs with
  | zero =>
    obtain ⟨-, rfl⟩ := Prod.mk.inj (Option.some.inj hread)
    exact ⟨[], s, rfl, rfl, le_rfl⟩
  | succ n ih =>
    obtain ⟨⟨x, b₁⟩, h₁, hread⟩ := Option.bind_eq_some_iff.mp hread
    obtain ⟨⟨xs', b₂⟩, h₂, hread⟩ := Option.bind_eq_some_iff.mp hread
    obtain ⟨rfl, rfl⟩ := Prod.mk.inj (Option.some.inj hread)
    obtain ⟨c, s', rfl, rfl, hc⟩ := codec.leaves hs h₁
    have hs' : ok s' := hok.drop hs
    exact (ih hs' h₂).prepend c (by omega)

lemma readToStop_leaves {fuel : ℕ} (hs : ok s)
    (hread : readToStop codec.read fuel (encodeAll s) = some (xs, b)) : Leaves s b 1 := by
  induction fuel generalizing s xs with
  | zero => simp [readToStop] at hread
  | succ fuel ih =>
    rcases readToStop_eq_some hread with ⟨heq, -⟩ | ⟨-, x, b₁, xs', h₁, h₂, -⟩
    · obtain ⟨s', rfl, rfl⟩ := encodeAll_eq_break (hok.fits hs) heq
      exact ⟨[.stop], s', rfl, rfl, le_rfl⟩
    · obtain ⟨c, s', rfl, rfl, hc⟩ := codec.leaves hs h₁
      have hs' : ok s' := hok.drop hs
      exact (ih hs' h₂).prepend c (by omega)

lemma readMany_sound {es : List Encoding} (hs : ok (tokensAll es ++ s))
    (hread : readMany codec.read es.length (encodeAll (tokensAll es ++ s)) = some (xs, b)) :
    (b = encodeAll s ∧ (∀ e ∈ es, codec.Framed e) ∧ (dataAll es).mapM codec.ofData = some xs) ∨
      Leaves (tokensAll es ++ s) b 1 := by
  induction es generalizing xs with
  | nil =>
    obtain ⟨rfl, rfl⟩ := Prod.mk.inj (Option.some.inj hread)
    exact Or.inl ⟨rfl, by simp, rfl⟩
  | cons e es ih =>
    obtain ⟨⟨x, b₁⟩, h₁, hread⟩ := Option.bind_eq_some_iff.mp hread
    obtain ⟨⟨xs', b₂⟩, h₂, hread⟩ := Option.bind_eq_some_iff.mp hread
    obtain ⟨rfl, rfl⟩ := Prod.mk.inj (Option.some.inj hread)
    rw [tokensAll, List.append_assoc] at hs h₁ ⊢
    have hbalance := e.balance_tokens
    rcases codec.sound hs h₁ with ⟨rfl, hframed, hdata⟩ | ⟨c, s', hc, rfl, hn⟩
    · rcases ih (hok.drop hs) h₂ with ⟨hb, hframeds, hdatas⟩ | hleaves
      · refine Or.inl ⟨hb, List.forall_mem_cons.mpr ⟨hframed, hframeds⟩, ?_⟩
        rw [dataAll, List.mapM_cons, hdata, hdatas]
        rfl
      · exact Or.inr (hleaves.prepend e.tokens (by omega))
    · rw [hc] at hs ⊢
      have hs' : ok s' := hok.drop hs
      exact Or.inr ((readMany_leaves codec hs' h₂).prepend c (by omega))

lemma readToStop_sound {fuel : ℕ} {es : List Encoding} (hs : ok (tokensAll es ++ .stop :: s))
    (hread : readToStop codec.read fuel (encodeAll (tokensAll es ++ .stop :: s)) = some (xs, b)) :
    (b = encodeAll s ∧ (∀ e ∈ es, codec.Framed e) ∧ (dataAll es).mapM codec.ofData = some xs) ∨
      Leaves (tokensAll es ++ .stop :: s) b 2 := by
  induction es generalizing xs fuel with
  | nil =>
    cases fuel with
    | zero => simp [readToStop] at hread
    | succ fuel =>
      obtain ⟨rfl, rfl⟩ := Prod.mk.inj (Option.some.inj hread)
      exact Or.inl ⟨rfl, by simp, rfl⟩
  | cons e es ih =>
    rw [tokensAll, List.append_assoc] at hs hread ⊢
    have hfits : ∀ token ∈ e.tokens, token.Fits := fun token ht =>
      hok.fits hs token (List.mem_append_left _ ht)
    have hbalance := e.balance_tokens
    cases fuel with
    | zero => simp [readToStop] at hread
    | succ fuel =>
      rcases readToStop_eq_some hread with ⟨heq, -⟩ | ⟨-, x, b₁, xs', h₁, h₂, rfl⟩
      · exact (encodeAll_ne_break hfits _ heq).elim
      · rcases codec.sound hs h₁ with ⟨rfl, hframed, hdata⟩ | ⟨c, s', hc, rfl, hn⟩
        · rcases ih (hok.drop hs) h₂ with ⟨hb, hframeds, hdatas⟩ | hleaves
          · refine Or.inl ⟨hb, List.forall_mem_cons.mpr ⟨hframed, hframeds⟩, ?_⟩
            rw [dataAll, List.mapM_cons, hdata, hdatas]
            rfl
          · exact Or.inr (hleaves.prepend e.tokens (by omega))
        · rw [hc] at hs ⊢
          have hs' : ok s' := hok.drop hs
          exact Or.inr ((readToStop_leaves codec hs' h₂).prepend c (by omega))

omit hok

lemma mapM_cons_eq_some {f : Data → Option α} {d : Data} {ds : List Data}
    (h : (d :: ds).mapM f = some xs) :
    ∃ x xs', f d = some x ∧ ds.mapM f = some xs' ∧ xs = x :: xs' := by
  rw [List.mapM_cons] at h
  obtain ⟨x, hx, h⟩ := Option.bind_eq_some_iff.mp h
  obtain ⟨xs', hxs, h⟩ := Option.bind_eq_some_iff.mp h
  exact ⟨x, xs', hx, hxs, (Option.some.inj h).symm⟩

lemma isSome_mapM {f : Data → Option α} {P : Data → Prop} (h : ∀ d, (f d).isSome ↔ P d)
    (ds : List Data) : (ds.mapM f).isSome ↔ ∀ d ∈ ds, P d := by
  induction ds with
  | nil => simp
  | cons d ds ih =>
    rw [List.mapM_cons, List.forall_mem_cons, ← ih, ← h]
    cases f d <;> cases ds.mapM f <;> simp

lemma readMany_complete {es : List Encoding} (hvalid : ∀ token ∈ tokensAll es, token.Fits)
    (hframed : ∀ e ∈ es, codec.Framed e) (hdata : (dataAll es).mapM codec.ofData = some xs)
    (b : Bytes) :
    readMany codec.read es.length (encodeAll (tokensAll es) ++ b) = some (xs, b) := by
  induction es generalizing xs with
  | nil =>
    obtain rfl := Option.some.inj hdata
    rfl
  | cons e es ih =>
    obtain ⟨x, xs', hx, hxs, rfl⟩ := mapM_cons_eq_some hdata
    obtain ⟨he, hes⟩ := List.forall_mem_append.mp hvalid
    obtain ⟨hframed, hframeds⟩ := List.forall_mem_cons.mp hframed
    have hread := codec.complete he hframed hx (encodeAll (tokensAll es) ++ b)
    rw [Encoding.encode] at hread
    rw [tokensAll, encodeAll_append, List.append_assoc, List.length_cons, readMany, hread]
    simp [ih hes hframeds hxs]

lemma readToStop_complete {es : List Encoding} {fuel : ℕ} (hfuel : es.length < fuel)
    (hvalid : ∀ token ∈ tokensAll es, token.Fits) (hframed : ∀ e ∈ es, codec.Framed e)
    (hdata : (dataAll es).mapM codec.ofData = some xs) (b : Bytes) :
    readToStop codec.read fuel (encodeAll (tokensAll es) ++ (Cbor.stop ++ b)) = some (xs, b) := by
  induction es generalizing xs fuel with
  | nil =>
    obtain rfl := Option.some.inj hdata
    obtain ⟨fuel, rfl⟩ := Nat.exists_eq_add_of_lt hfuel
    rfl
  | cons e es ih =>
    obtain ⟨x, xs', hx, hxs, rfl⟩ := mapM_cons_eq_some hdata
    obtain ⟨he, hes⟩ := List.forall_mem_append.mp hvalid
    obtain ⟨hframed, hframeds⟩ := List.forall_mem_cons.mp hframed
    obtain ⟨k, rfl⟩ := Nat.exists_eq_add_of_lt hfuel
    have hread := codec.complete he hframed hx (encodeAll (tokensAll es) ++ (Cbor.stop ++ b))
    have hbreak : ∀ d, encodeAll (e.tokens ++ tokensAll es) ++ (Cbor.stop ++ b) ≠ 0xff :: d := by
      intro d
      obtain ⟨token, s', htokens, hstop⟩ := e.tokens_eq_cons
      rw [htokens, List.cons_append, encodeAll_cons, List.append_assoc]
      exact Token.encode_ne_break (he token (by simp [htokens])) hstop _ _
    have hrest := @ih xs' (es.length + 1 + k) (by omega) hes hframeds hxs
    rw [Encoding.encode] at hread
    rw [tokensAll, show (e :: es).length + k + 1 = (es.length + 1 + k) + 1 by simp, readToStop]
    · rw [encodeAll_append, List.append_assoc, hread]
      simp [hrest]
    · exact hbreak

lemma length_le_encodeAll {es : List Encoding} (hvalid : ∀ token ∈ tokensAll es, token.Fits) :
    es.length ≤ (encodeAll (tokensAll es)).length := by
  induction es with
  | nil => simp
  | cons e es ih =>
    obtain ⟨he, hes⟩ := List.forall_mem_append.mp hvalid
    have hpos : 0 < (encodeAll e.tokens).length := by
      refine List.length_pos_iff.mpr fun hnil => ?_
      obtain ⟨token, s', htokens, -⟩ := e.tokens_eq_cons
      simpa [htokens] using eq_nil_of_encodeAll he hnil
    have hle := ih hes
    rw [tokensAll, encodeAll_append, List.length_append, List.length_cons]
    omega

end Lists

/-- The array that holds a list, of either framing. -/
@[simps read ofItems]
def Body.ofList [hok : IsInput ok] (codec : Codec ok α) : Body ok (List α) where
  read := readItems codec.read
  ofItems ds := ds.mapM codec.ofData
  Fits ds := ∀ d ∈ ds, codec.Fits d
  Framed _ es := ∀ e ∈ es, codec.Framed e
  isSome_ofItems := isSome_mapM codec.isSome_ofData
  head {s x b} hs hread := by
    obtain ⟨⟨n, b₁⟩, h₁, -⟩ := Option.bind_eq_some_iff.mp hread
    obtain ⟨f, k, s', hs, -⟩ := readArray_tokens hs h₁
    exact ⟨f, k, s', hs⟩
  read_stop b := rfl
  leaves {s x b} hs hread := by
    obtain ⟨⟨n, b₁⟩, h₁, hread⟩ := Option.bind_eq_some_iff.mp hread
    obtain ⟨f, k, s', rfl, rfl, rfl⟩ := readArray_tokens hs h₁
    have hs' := hok.tail hs
    cases f with
    | definite w => exact (readMany_leaves codec hs' hread).prepend [.array w k] le_rfl
    | indefinite => exact (readToStop_leaves codec hs' hread).prepend [.beginArray] le_rfl
  sound {f es s x b} hs hread := by
    rw [body_append] at hs hread ⊢
    rw [readItems, encodeAll_cons, f.readArray_array (hok.fits hs _ (by simp))] at hread
    have hs' := hok.tail hs
    cases f with
    | definite w =>
      rcases readMany_sound codec hs' hread with ⟨hb, hframed, hdata⟩ | hleaves
      · exact Or.inl ⟨hb, hframed, hdata⟩
      · exact Or.inr (hleaves.prepend [.array w es.length] le_rfl)
    | indefinite =>
      rcases readToStop_sound codec hs' hread with ⟨hb, hframed, hdata⟩ | hleaves
      · exact Or.inl ⟨hb, hframed, hdata⟩
      · exact Or.inr (hleaves.prepend [.beginArray] le_rfl)
  complete {f es x} hvalid hframed hdata b := by
    have hes : ∀ token ∈ tokensAll es, token.Fits := fun token ht =>
      hvalid token (by simp [body, ht])
    rw [readItems, body, encodeAll_cons, List.append_assoc,
      f.readArray_array (hvalid _ (by simp [body]))]
    cases f with
    | definite w =>
      rw [Framing.close, List.append_nil]
      exact readMany_complete codec hes hframed hdata b
    | indefinite =>
      have hlen := length_le_encodeAll hes
      rw [encodeAll_append, List.append_assoc]
      refine readToStop_complete codec ?_ hes hframed hdata b
      rw [List.length_append]
      exact Nat.lt_succ_of_le (hlen.trans (Nat.le_add_right _ _))

namespace Codec

/-- A list of which each item is read by a codec. -/
def list [hok : IsInput ok] (codec : Codec ok α) : Codec ok (List α) := .ofBody (.ofList codec)

/-- A record that is closed by a break. -/
def record [hok : IsInput ok] (fields : Fields ok α) : Codec ok α := .ofBody (.ofFields fields)

lemma list_read [hok : IsInput ok] (codec : Codec ok α) :
    codec.list.read = readItems codec.read := rfl

@[simp] lemma record_read [hok : IsInput ok] (fields : Fields ok α) :
    (record fields).read = readFramed fields.read := rfl

end Codec

end Lib.Plutus
