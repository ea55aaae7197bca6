import Konduit.Lib.Arrays

/-!
# Codecs of constructors

A constructor is read by its tag and then by what is in its array.  The reader of one without
fields takes no more than the head of the array, so an empty array of indefinite length leaves its
break behind.  Such an encoding is called bare; within a record of definite length its break takes
the place of the one that the record lacks (`OpenCodec.read_framed_iff`).
-/

namespace Lib.Plutus

open Cbor Encoding

variable {ok : List Token → Prop} {α γ : Type}

/-! ## Alternatives by tag -/

/-- Read a tag and then as one of the alternatives, the first of which has the tag 121. -/
def readConstr (read : γ → Bytes → Option (α × Bytes)) (alts : List γ) (b : Bytes) :
    Option (α × Bytes) :=
  (readTag b).bind fun r =>
    (if 121 ≤ r.1 then alts[r.1 - 121]? else none).bind fun alt => read alt r.2

/-- The value of a constructor that is one of the alternatives. -/
def ofConstr (ofFields : γ → List Data → Option α) (alts : List γ) : Data → Option α
  | .constr i ds => alts[i]?.bind fun alt => ofFields alt ds
  | _ => none

/-- The data of a constructor that is one of the alternatives. -/
def FitsConstr (fits : γ → List Data → Prop) (alts : List γ) (d : Data) : Prop :=
  ∃ i ds alt, d = .constr i ds ∧ alts[i]? = some alt ∧ fits alt ds

/-- An encoding of a constructor that is one of the alternatives. -/
def FramedConstr (framed : γ → Framing → List Encoding → Prop) (alts : List γ) (e : Encoding) :
    Prop :=
  ∃ w i f es alt, e = .constr w i f es ∧ alts[i.1]? = some alt ∧ framed alt f es

section Alternatives

variable {read : γ → Bytes → Option (α × Bytes)} {ofFields : γ → List Data → Option α}
  {fits : γ → List Data → Prop} {alts : List γ}

lemma isSome_ofConstr (h : ∀ alt ds, (ofFields alt ds).isSome ↔ fits alt ds) (d : Data) :
    (ofConstr ofFields alts d).isSome ↔ FitsConstr fits alts d := by
  cases d with
  | constr i ds =>
    cases hi : alts[i]? with
    | none => simp [ofConstr, FitsConstr, hi]
    | some alt => simp [ofConstr, FitsConstr, hi, h]
  | _ => simp [ofConstr, FitsConstr]

@[simp] lemma readConstr_stop (b : Bytes) : readConstr read alts (0xff :: b) = none := rfl

lemma readConstr_eq_some {b : Bytes} {r : α × Bytes} (h : readConstr read alts b = some r) :
    ∃ n b₁ alt, readTag b = some (n, b₁) ∧ 121 ≤ n ∧ alts[n - 121]? = some alt ∧
      read alt b₁ = some r := by
  obtain ⟨⟨n, b₁⟩, htag, h⟩ := Option.bind_eq_some_iff.mp h
  obtain ⟨alt, halt, h⟩ := Option.bind_eq_some_iff.mp h
  split_ifs at halt with hn
  exact ⟨n, b₁, alt, htag, hn, halt, h⟩

lemma readConstr_map {δ : Type} (f : δ → γ) (alts : List δ) :
    readConstr read (alts.map f) = readConstr (fun alt => read (f alt)) alts := by
  funext b
  rw [readConstr, readConstr]
  refine congrArg _ (funext fun r => ?_)
  split_ifs
  · rw [List.getElem?_map, Option.bind_map]
    rfl
  · rfl

lemma ofConstr_map {δ : Type} (f : δ → γ) (alts : List δ) :
    ofConstr ofFields (alts.map f) = ofConstr (fun alt => ofFields (f alt)) alts := by
  funext d
  cases d with
  | constr i ds =>
    rw [ofConstr, ofConstr, List.getElem?_map, Option.bind_map]
    rfl
  | _ => rfl

/-- No alternative has the tag. -/
lemma alt_eq_none {n : ℕ} (h : n < 121 ∨ 121 + alts.length ≤ n) :
    (if 121 ≤ n then alts[n - 121]? else none) = none := by
  split_ifs with hn
  · exact List.getElem?_eq_none (by omega)
  · rfl

/-- What reads as a constructor is an encoding of one. -/
lemma readConstr_tokens (hlen : alts.length ≤ 7) {e : Encoding} {s : List Token}
    (hfits : ∀ token ∈ e.tokens ++ s, token.Fits) {r : α × Bytes}
    (h : readConstr read alts (encodeAll (e.tokens ++ s)) = some r) :
    ∃ w i f es alt, e = .constr w i f es ∧ alts[i.1]? = some alt ∧
      read alt (encodeAll (body f es ++ s)) = some r := by
  obtain ⟨n, b₁, alt, htag, hn, halt, h⟩ := readConstr_eq_some h
  obtain ⟨w, s', htokens, rfl⟩ := readTag_encodeAll hfits htag
  obtain ⟨i, f, es, rfl, rfl, rfl⟩ := eq_constr hn htokens
  obtain ⟨hlt, -⟩ := List.getElem?_eq_some_iff.mp halt
  have hi : constrTag i.1 - 121 = i.1 := by
    by_cases h7 : i.1 < 7
    · rw [constrTag, if_pos h7, Nat.add_sub_cancel_left]
    · rw [constrTag, if_neg h7] at hlt
      omega
  exact ⟨w, i, f, es, alt, rfl, hi ▸ halt, h⟩

lemma readConstr_constr (hlen : alts.length ≤ 7) {w : Width} {i : Fin 128} {f : Framing}
    {es : List Encoding} (hvalid : (constr w i f es).Valid) {alt : γ}
    (halt : alts[i.1]? = some alt) (b : Bytes) :
    readConstr read alts ((constr w i f es).encode ++ b) =
      read alt (encodeAll (body f es) ++ b) := by
  obtain ⟨hlt, -⟩ := List.getElem?_eq_some_iff.mp halt
  have htag : constrTag i.1 = 121 + i.1 := by rw [constrTag, if_pos (by omega)]
  have hfits : (Token.tag w (constrTag i)).Fits := hvalid _ (by simp)
  rw [encode, tokens_constr, encodeAll_cons, List.append_assoc, readConstr, readTag_encode hfits,
    Option.bind_some, htag, if_pos (by omega), Nat.add_sub_cancel_left, halt, Option.bind_some]

end Alternatives

/-- The codec of constructors that all have fields. -/
def Codec.ofConstrs [hok : IsInput ok] (alts : List (Body ok α)) (hlen : alts.length ≤ 7) :
    Codec ok α where
  read := readConstr Body.read alts
  ofData := ofConstr Body.ofItems alts
  Fits := FitsConstr Body.Fits alts
  Framed := FramedConstr Body.Framed alts
  isSome_ofData := isSome_ofConstr Body.isSome_ofItems
  read_stop b := rfl
  leaves {s x b} hs hread := by
    obtain ⟨n, b₁, alt, htag, -, -, h⟩ := readConstr_eq_some hread
    obtain ⟨w, s', rfl, rfl⟩ := readTag_encodeAll (hok.fits hs) htag
    exact (alt.leaves (hok.tail hs) h).prepend [.tag w n] le_rfl
  sound {e s x b} hs hread := by
    obtain ⟨w, i, f, es, alt, rfl, halt, h⟩ := readConstr_tokens hlen (hok.fits hs) hread
    have hs' : ok (body f es ++ s) := hok.tail hs
    rcases alt.sound hs' h with ⟨hb, hframed, hdata⟩ | hleaves
    · refine Or.inl ⟨hb, ⟨w, i, f, es, alt, rfl, halt, hframed⟩, ?_⟩
      rw [data, ofConstr, halt, Option.bind_some, hdata]
    · exact Or.inr (hleaves.prepend [.tag w (constrTag i)] le_rfl)
  complete {e x} hvalid hframed hdata b := by
    obtain ⟨w, i, f, es, alt, rfl, halt, hframed⟩ := hframed
    rw [data, ofConstr, halt, Option.bind_some] at hdata
    rw [readConstr_constr hlen hvalid halt]
    exact alt.complete (fun token ht => hvalid token (by simp [ht])) hframed hdata b

/-! ## Constructors without fields -/

/-- A reader of what comes after the tag of a constructor, and of its fields as data.  It is known
by what it takes together with a break after it. -/
structure Alt (ok : List Token → Prop) (α : Type) where
  read : Bytes → Option (α × Bytes)
  ofFields : List Data → Option α
  Fits : List Data → Prop
  Framed : Framing → List Encoding → Prop
  /-- The reader does not look for the end of the array. -/
  Bare : Prop
  isSome_ofFields : ∀ ds, (ofFields ds).isSome ↔ Fits ds
  leaves_stop : ∀ {s x b u b'}, ok s → read (encodeAll s) = some (x, b) →
    readStop b = some (u, b') →
    Leaves s b' 1 ∨ ∃ s', s = .beginArray :: .stop :: s' ∧ b' = encodeAll s'
  sound_stop : ∀ {f es s x b u b'}, ok (body f es ++ s) →
    read (encodeAll (body f es ++ s)) = some (x, b) → readStop b = some (u, b') →
    (∃ s', s = .stop :: s' ∧ b' = encodeAll s' ∧ Framed f es ∧ ofFields (dataAll es) = some x) ∨
    Leaves (body f es ++ s) b' 2 ∨
    Bare ∧ f = .indefinite ∧ es = [] ∧ b' = encodeAll s ∧ ofFields [] = some x
  read_body_iff : ∀ {f es x}, ok (body f es) →
    (read (encodeAll (body f es)) = some (x, []) ↔
      Framed f es ∧ ofFields (dataAll es) = some x)
  complete : ∀ {f es x}, (∀ token ∈ body f es, token.Fits) → Framed f es →
    ofFields (dataAll es) = some x → ∀ b, read (encodeAll (body f es) ++ b) = some (x, b)
  complete_bare : ∀ {x}, Bare → ofFields [] = some x →
    ∀ b, read (encodeAll (body .indefinite []) ++ b) = some (x, 0xff :: b)

namespace Body

/-- What is in an array is read off it to its end. -/
lemma read_body_iff [hok : IsInput ok] (array : Body ok α) {f : Framing} {es : List Encoding}
    (hs : ok (body f es)) {x : α} :
    array.read (encodeAll (body f es)) = some (x, []) ↔
      array.Framed f es ∧ array.ofItems (dataAll es) = some x := by
  have hfits := hok.fits hs
  constructor
  · intro hread
    rw [← (body f es).append_nil] at hs hread
    rcases array.sound hs hread with ⟨-, hframed, hdata⟩ | hleaves
    · exact ⟨hframed, hdata⟩
    · rw [List.append_nil] at hleaves
      have hle := hleaves.le_balance hfits
      rw [balance_body] at hle
      omega
  · rintro ⟨hframed, hdata⟩
    have hread := array.complete hfits hframed hdata []
    rwa [List.append_nil] at hread

end Body

namespace Alt

/-- A constructor with fields. -/
def ofBody [hok : IsInput ok] (array : Body ok α) : Alt ok α where
  read := array.read
  ofFields := array.ofItems
  Fits := array.Fits
  Framed := array.Framed
  Bare := False
  isSome_ofFields := array.isSome_ofItems
  leaves_stop hs hread hstop := Or.inl ((array.leaves hs hread).stop (hok.fits hs) hstop)
  sound_stop {f es s x b u b'} hs hread hstop := by
    rcases array.sound hs hread with ⟨rfl, hframed, hdata⟩ | hleaves
    · have hs' : ok s := hok.drop hs
      obtain ⟨s', rfl, rfl⟩ := readStop_encodeAll (hok.fits hs') hstop
      exact Or.inl ⟨s', rfl, rfl, hframed, hdata⟩
    · exact Or.inr (Or.inl (hleaves.stop (hok.fits hs) hstop))
  read_body_iff hs := array.read_body_iff hs
  complete := array.complete
  complete_bare h := h.elim

/-- A constructor without fields: fields that are there are not looked at. -/
def nullary [hok : IsInput ok] (x : α) : Alt ok α where
  read b := (readArray b).map fun r => (x, r.2)
  ofFields _ := some x
  Fits _ := True
  Framed f es := (∃ w, f = .definite w) ∧ es = []
  Bare := True
  isSome_ofFields ds := by simp
  leaves_stop {s x' b u b'} hs hread hstop := by
    obtain ⟨⟨n, b₁⟩, h₁, heq⟩ := Option.map_eq_some_iff.mp hread
    obtain ⟨rfl, rfl⟩ := Prod.mk.inj heq
    obtain ⟨f, k, s', rfl, rfl, -⟩ := readArray_tokens hs h₁
    obtain ⟨s'', rfl, rfl⟩ := readStop_encodeAll (hok.fits (hok.tail hs)) hstop
    cases f with
    | definite w => exact Or.inl ⟨[.array w k, .stop], s'', rfl, rfl, le_rfl⟩
    | indefinite => exact Or.inr ⟨s'', rfl, rfl⟩
  sound_stop {f es s x' b u b'} hs hread hstop := by
    rw [body_append] at hs hread ⊢
    obtain ⟨⟨n, b₁⟩, h₁, heq⟩ := Option.map_eq_some_iff.mp hread
    obtain ⟨rfl, rfl⟩ := Prod.mk.inj heq
    rw [encodeAll_cons, f.readArray_array (hok.fits hs _ (by simp))] at h₁
    obtain ⟨-, rfl⟩ := Prod.mk.inj (Option.some.inj h₁)
    have hs' := hok.tail hs
    cases es with
    | nil =>
      cases f with
      | definite w =>
        obtain ⟨s', rfl, rfl⟩ := readStop_encodeAll (hok.fits hs') hstop
        exact Or.inl ⟨s', rfl, rfl, ⟨⟨w, rfl⟩, rfl⟩, rfl⟩
      | indefinite =>
        obtain ⟨-, rfl⟩ := Prod.mk.inj (Option.some.inj hstop)
        exact Or.inr (Or.inr ⟨trivial, rfl, rfl, rfl, rfl⟩)
    | cons e es =>
      -- a field is not a break
      have hfits : ∀ token ∈ e.tokens, token.Fits := fun token ht =>
        hok.fits hs' token (by simp [tokensAll, ht])
      rw [tokensAll, List.append_assoc] at hstop
      exact (encodeAll_ne_break hfits _ (eq_of_readStop hstop)).elim
  read_body_iff {f es x'} hs := by
    have hfits := hok.fits hs
    have hread : (readArray (encodeAll (body f es))).map (fun r => (x, r.2)) =
        some (x, encodeAll (tokensAll es ++ f.close)) := by
      rw [body, encodeAll_cons, f.readArray_array (hfits _ (by simp [body])), Option.map_some]
    rw [hread]
    constructor
    · intro h
      obtain ⟨rfl, hnil⟩ := Prod.mk.inj (Option.some.inj h)
      have hrest : ∀ token ∈ tokensAll es ++ f.close, token.Fits := fun token ht =>
        hfits token (List.mem_cons_of_mem _ ht)
      obtain ⟨hes, hf⟩ := definite_of_rest (eq_nil_of_encodeAll hrest hnil)
      exact ⟨⟨hf, hes⟩, rfl⟩
    · rintro ⟨⟨⟨w, rfl⟩, rfl⟩, hx⟩
      rw [Option.some.inj hx]
      rfl
  complete {f es x'} hvalid hframed hdata b := by
    obtain ⟨⟨w, rfl⟩, rfl⟩ := hframed
    obtain rfl := Option.some.inj hdata
    have hhead : ((Framing.definite w).array 0).Fits := hvalid _ (by simp [body])
    have htokens : encodeAll (body (.definite w) []) = ((Framing.definite w).array 0).encode := by
      simp [body, tokensAll, Framing.close]
    rw [htokens, Framing.readArray_array _ hhead, Option.map_some]
  complete_bare {x'} _ hdata b := by
    obtain rfl := Option.some.inj hdata
    rfl

end Alt

/-- A codec of constructors of which some may have no fields. -/
structure OpenCodec (ok : List Token → Prop) (α : Type) where
  read : Bytes → Option (α × Bytes)
  ofData : Data → Option α
  Fits : Data → Prop
  Framed : Encoding → Prop
  /-- The reader leaves the break of the encoding behind. -/
  Bare : Encoding → Prop
  isSome_ofData : ∀ d, (ofData d).isSome ↔ Fits d
  read_stop : ∀ b, read (0xff :: b) = none
  leaves_stop : ∀ {s x b u b'}, ok s → read (encodeAll s) = some (x, b) →
    readStop b = some (u, b') →
    Leaves s b' 1 ∨ ∃ w n s', s = .tag w n :: .beginArray :: .stop :: s' ∧ b' = encodeAll s'
  sound_stop : ∀ {e s x b u b'}, ok (e.tokens ++ s) →
    read (encodeAll (e.tokens ++ s)) = some (x, b) → readStop b = some (u, b') →
    (∃ s', s = .stop :: s' ∧ b' = encodeAll s' ∧ Framed e ∧ ofData e.data = some x) ∨
    Leaves (e.tokens ++ s) b' 2 ∨ Bare e ∧ b' = encodeAll s ∧ ofData e.data = some x
  complete : ∀ {e x}, e.Valid → Framed e → ofData e.data = some x →
    ∀ b, read (e.encode ++ b) = some (x, b)
  complete_bare : ∀ {e x}, e.Valid → Bare e → ofData e.data = some x →
    ∀ b, read (e.encode ++ b) = some (x, 0xff :: b)
  tokens_of_bare : ∀ {e}, Bare e → ∃ w n, e.tokens = [.tag w n, .beginArray, .stop]

namespace OpenCodec

/-- The codec of a type with a constructor for each of the alternatives. -/
def ofConstrs [hok : IsInput ok] (alts : List (Alt ok α)) (hlen : alts.length ≤ 7) :
    OpenCodec ok α where
  read := readConstr Alt.read alts
  ofData := ofConstr Alt.ofFields alts
  Fits := FitsConstr Alt.Fits alts
  Framed := FramedConstr Alt.Framed alts
  Bare := FramedConstr (fun alt f es => alt.Bare ∧ f = .indefinite ∧ es = []) alts
  isSome_ofData := isSome_ofConstr Alt.isSome_ofFields
  read_stop b := rfl
  leaves_stop {s x b u b'} hs hread hstop := by
    obtain ⟨n, b₁, alt, htag, -, -, h⟩ := readConstr_eq_some hread
    obtain ⟨w, s', rfl, rfl⟩ := readTag_encodeAll (hok.fits hs) htag
    rcases alt.leaves_stop (hok.tail hs) h hstop with hleaves | ⟨s', rfl, rfl⟩
    · exact Or.inl (hleaves.prepend [.tag w n] le_rfl)
    · exact Or.inr ⟨w, n, s', rfl, rfl⟩
  sound_stop {e s x b u b'} hs hread hstop := by
    obtain ⟨w, i, f, es, alt, rfl, halt, h⟩ := readConstr_tokens hlen (hok.fits hs) hread
    have hs' : ok (body f es ++ s) := hok.tail hs
    have hdata : ofConstr Alt.ofFields alts (constr w i f es).data = alt.ofFields (dataAll es) := by
      rw [data, ofConstr, halt, Option.bind_some]
    rw [hdata]
    rcases alt.sound_stop hs' h hstop with ⟨s', hs, hb, hframed, hx⟩ | hleaves |
      ⟨hbare, rfl, rfl, hb, hx⟩
    · exact Or.inl ⟨s', hs, hb, ⟨w, i, f, es, alt, rfl, halt, hframed⟩, hx⟩
    · exact Or.inr (Or.inl (hleaves.prepend [.tag w (constrTag i)] le_rfl))
    · exact Or.inr (Or.inr ⟨⟨w, i, _, _, alt, rfl, halt, hbare, rfl, rfl⟩, hb, hx⟩)
  complete {e x} hvalid hframed hdata b := by
    obtain ⟨w, i, f, es, alt, rfl, halt, hframed⟩ := hframed
    rw [data, ofConstr, halt, Option.bind_some] at hdata
    rw [readConstr_constr hlen hvalid halt]
    exact alt.complete (fun token ht => hvalid token (by simp [ht])) hframed hdata b
  complete_bare {e x} hvalid hbare hdata b := by
    obtain ⟨w, i, f, es, alt, rfl, halt, hbare, rfl, rfl⟩ := hbare
    rw [data, ofConstr, halt, Option.bind_some] at hdata
    rw [readConstr_constr hlen hvalid halt]
    exact alt.complete_bare hbare hdata b
  tokens_of_bare {e} hbare := by
    obtain ⟨w, i, f, es, alt, rfl, halt, hbare, rfl, rfl⟩ := hbare
    exact ⟨w, _, rfl⟩

/-- What a function makes of the values. -/
def map {β : Type} (codec : OpenCodec ok α) (f : α → β) : OpenCodec ok β where
  read b := (codec.read b).map fun r => (f r.1, r.2)
  ofData d := (codec.ofData d).map f
  Fits := codec.Fits
  Framed := codec.Framed
  Bare := codec.Bare
  isSome_ofData d := by rw [Option.isSome_map, codec.isSome_ofData]
  read_stop b := by rw [codec.read_stop, Option.map_none]
  leaves_stop {s y b u b'} hs hread hstop := by
    obtain ⟨⟨x, b₁⟩, h₁, heq⟩ := Option.map_eq_some_iff.mp hread
    obtain ⟨rfl, rfl⟩ := Prod.mk.inj heq
    exact codec.leaves_stop hs h₁ hstop
  sound_stop {e s y b u b'} hs hread hstop := by
    obtain ⟨⟨x, b₁⟩, h₁, heq⟩ := Option.map_eq_some_iff.mp hread
    obtain ⟨rfl, rfl⟩ := Prod.mk.inj heq
    rcases codec.sound_stop hs h₁ hstop with ⟨s', hs, hb, hframed, hdata⟩ | hleaves |
      ⟨hbare, hb, hdata⟩
    · exact Or.inl ⟨s', hs, hb, hframed, by rw [hdata, Option.map_some]⟩
    · exact Or.inr (Or.inl hleaves)
    · exact Or.inr (Or.inr ⟨hbare, hb, by rw [hdata, Option.map_some]⟩)
  complete {e y} hvalid hframed hdata b := by
    obtain ⟨x, hx, rfl⟩ := Option.map_eq_some_iff.mp hdata
    rw [codec.complete hvalid hframed hx b, Option.map_some]
  complete_bare {e y} hvalid hbare hdata b := by
    obtain ⟨x, hx, rfl⟩ := Option.map_eq_some_iff.mp hdata
    rw [codec.complete_bare hvalid hbare hx b, Option.map_some]
  tokens_of_bare := codec.tokens_of_bare

/-- The value of a record of one field. -/
def ofField (codec : OpenCodec ok α) : List Data → Option α
  | [d] => codec.ofData d
  | _ => none

/-- The data of a record of one field. -/
def FitsField (codec : OpenCodec ok α) (ds : List Data) : Prop := ∃ d, ds = [d] ∧ codec.Fits d

/-- A record of one field that is closed by a break, or of definite length when the break of the
field is left over. -/
def FramedField (codec : OpenCodec ok α) (f : Framing) (es : List Encoding) : Prop :=
  ∃ e, es = [e] ∧
    (f = .indefinite ∧ codec.Framed e ∨ (∃ w, f = .definite w) ∧ codec.Bare e)

lemma isSome_ofField (codec : OpenCodec ok α) (ds : List Data) :
    (codec.ofField ds).isSome ↔ codec.FitsField ds := by
  rcases ds with _ | ⟨d, _ | ⟨d', ds⟩⟩ <;> simp [ofField, FitsField, codec.isSome_ofData]

/-- A record of one field reads to its end off an array that is closed by a break, or off one of
definite length when the break of the field itself is left over. -/
lemma read_framed_iff [hok : IsInput ok] (codec : OpenCodec ok α) {f : Framing}
    {es : List Encoding} (hs : ok (body f es)) {x : α} :
    readFramed codec.read (encodeAll (body f es)) = some (x, []) ↔
      codec.FramedField f es ∧ codec.ofField (dataAll es) = some x := by
  have hfits := hok.fits hs
  have htokens : body f es = f.array es.length :: (tokensAll es ++ f.close) := rfl
  constructor
  · intro hread
    obtain ⟨⟨n, b₁⟩, h₁, hread⟩ := Option.bind_eq_some_iff.mp hread
    obtain ⟨⟨x₂, b₂⟩, h₂, hread⟩ := Option.bind_eq_some_iff.mp hread
    obtain ⟨⟨u, b₃⟩, h₃, hread⟩ := Option.bind_eq_some_iff.mp hread
    obtain ⟨rfl, rfl⟩ := Prod.mk.inj (Option.some.inj hread)
    rw [htokens] at hs h₁
    rw [encodeAll_cons, f.readArray_array (hok.fits hs _ (by simp))] at h₁
    obtain ⟨-, rfl⟩ := Prod.mk.inj (Option.some.inj h₁)
    have hs' := hok.tail hs
    cases es with
    | nil =>
      cases f with
      | definite w =>
        rcases codec.leaves_stop hs' h₂ h₃ with hleaves | ⟨w, n, s', heq, -⟩
        · exact absurd (hleaves.le_balance (hok.fits hs')) (by simp [tokensAll, Framing.close])
        · simp [tokensAll, Framing.close] at heq
      | indefinite =>
        have hnone := codec.read_stop []
        exact absurd (hnone.symm.trans h₂) (by simp)
    | cons e es =>
      rw [tokensAll, List.append_assoc] at hs' h₂
      have hrest : ∀ token ∈ tokensAll es ++ f.close, token.Fits := hok.fits (hok.drop hs')
      rcases codec.sound_stop hs' h₂ h₃ with ⟨s', heq, hb, hframed, hdata⟩ | hleaves |
        ⟨hbare, hb, hdata⟩
      · obtain rfl := eq_nil_of_tokensAll heq
        cases f with
        | definite w => simp [tokensAll, Framing.close] at heq
        | indefinite => exact ⟨⟨e, rfl, Or.inl ⟨rfl, hframed⟩⟩, hdata⟩
      · -- at most one break is left after the field
        have hle := hleaves.le_balance (hok.fits hs')
        have hclose : balance f.close ≤ 1 := by
          cases f <;> simp [Framing.close, Token.balance]
        rw [balance_append, balance_append, e.balance_tokens, balance_tokensAll] at hle
        omega
      · obtain ⟨rfl, hf⟩ := definite_of_rest (eq_nil_of_encodeAll hrest hb.symm)
        exact ⟨⟨e, rfl, Or.inr ⟨hf, hbare⟩⟩, hdata⟩
  · rintro ⟨⟨e, rfl, ⟨rfl, hframed⟩ | ⟨⟨w, rfl⟩, hbare⟩⟩, hdata⟩
    · have he : e.Valid := fun token ht => hfits token (by simp [body, tokensAll, ht])
      rw [encodeAll_body_indefinite, tokensAll_singleton, ← List.append_nil (framed _)]
      exact readFramed_framed [] (codec.complete he hframed hdata)
    · have he : e.Valid := fun token ht => hfits token (by simp [body, tokensAll, ht])
      have hhead : ((Framing.definite w).array 1).Fits := hfits _ (by simp [body])
      have hread := codec.complete_bare he hbare hdata []
      have hframe : encodeAll (body (.definite w) [e]) =
          ((Framing.definite w).array 1).encode ++ (e.encode ++ []) := by
        simp [body, tokensAll, Framing.close, Encoding.encode]
      rw [hframe, readFramed, Framing.readArray_array _ hhead]
      simp only [Option.bind_eq_bind, Option.bind_some, hread]
      rfl

end OpenCodec

/-- A record of one field, where no token string that is read has an empty array of indefinite
length after a tag. -/
def Body.ofOpen [hok : IsInput ok]
    (hbare : ∀ {w n s}, ¬ok (.tag w n :: .beginArray :: .stop :: s)) (codec : OpenCodec ok α) :
    Body ok α where
  read := readFramed codec.read
  ofItems := codec.ofField
  Fits := codec.FitsField
  Framed f es := f = .indefinite ∧ ∃ e, es = [e] ∧ codec.Framed e
  isSome_ofItems := codec.isSome_ofField
  head {s x b} hs hread := by
    obtain ⟨⟨n, b₁⟩, h₁, -⟩ := Option.bind_eq_some_iff.mp hread
    obtain ⟨f, k, s', hs, -⟩ := readArray_tokens hs h₁
    exact ⟨f, k, s', hs⟩
  read_stop b := rfl
  leaves {s x b} hs hread := by
    obtain ⟨⟨n, b₁⟩, h₁, hread⟩ := Option.bind_eq_some_iff.mp hread
    obtain ⟨⟨x₂, b₂⟩, h₂, hread⟩ := Option.bind_eq_some_iff.mp hread
    obtain ⟨⟨u, b₃⟩, h₃, hread⟩ := Option.bind_eq_some_iff.mp hread
    obtain ⟨rfl, rfl⟩ := Prod.mk.inj (Option.some.inj hread)
    obtain ⟨f, k, s', rfl, rfl, -⟩ := readArray_tokens hs h₁
    have hs' : ok s' := hok.tail hs
    have hhead := f.le_balance_array k
    rcases codec.leaves_stop hs' h₂ h₃ with hleaves | ⟨w, n, s'', rfl, -⟩
    · refine hleaves.prepend [f.array k] ?_
      rw [balance_cons, balance_nil]
      omega
    · exact (hbare hs').elim
  sound {f es s x b} hs hread := by
    rw [body_append] at hs hread ⊢
    obtain ⟨⟨n, b₁⟩, h₁, hread⟩ := Option.bind_eq_some_iff.mp hread
    obtain ⟨⟨x₂, b₂⟩, h₂, hread⟩ := Option.bind_eq_some_iff.mp hread
    obtain ⟨⟨u, b₃⟩, h₃, hread⟩ := Option.bind_eq_some_iff.mp hread
    obtain ⟨rfl, rfl⟩ := Prod.mk.inj (Option.some.inj hread)
    rw [encodeAll_cons, f.readArray_array (hok.fits hs _ (by simp))] at h₁
    obtain ⟨-, rfl⟩ := Prod.mk.inj (Option.some.inj h₁)
    have hs' := hok.tail hs
    have hhead := f.le_balance_array es.length
    cases es with
    | nil =>
      cases f with
      | definite w =>
        -- the field is one that comes after
        rcases codec.leaves_stop hs' h₂ h₃ with hleaves | ⟨w, n, s'', heq, -⟩
        · exact Or.inr (hleaves.prepend [.array w 0] le_rfl)
        · exact (hbare (heq ▸ hs')).elim
      | indefinite =>
        have hnone := codec.read_stop (encodeAll s)
        exact absurd (hnone.symm.trans h₂) (by simp)
    | cons e es =>
      rw [tokensAll, List.append_assoc] at hs' h₂ ⊢
      rcases codec.sound_stop hs' h₂ h₃ with ⟨s', heq, rfl, hframed, hdata⟩ | hleaves |
        ⟨hb, -, -⟩
      · obtain rfl := eq_nil_of_tokensAll heq
        cases f with
        | definite w =>
          obtain rfl : s = .stop :: s' := heq
          have hleaves : Leaves (.stop :: s') (encodeAll s') 1 := ⟨[.stop], s', rfl, rfl, le_rfl⟩
          refine Or.inr (hleaves.prepend (.array w 1 :: e.tokens) ?_)
          rw [balance_cons, e.balance_tokens]
          rfl
        | indefinite =>
          obtain rfl : s = s' := (List.cons.inj heq).2
          exact Or.inl ⟨rfl, ⟨rfl, e, rfl, hframed⟩, hdata⟩
      · refine Or.inr (hleaves.prepend [f.array (e :: es).length] ?_)
        rw [balance_cons, balance_nil]
        omega
      · obtain ⟨w, n, heq⟩ := codec.tokens_of_bare hb
        rw [heq] at hs'
        exact (hbare hs').elim
  complete {f es x} hvalid hframed hdata b := by
    obtain ⟨rfl, e, rfl, hframed⟩ := hframed
    have he : e.Valid := fun token ht => hvalid token (by simp [body, tokensAll, ht])
    rw [encodeAll_body_indefinite, tokensAll_singleton]
    exact readFramed_framed b (codec.complete he hframed hdata)

/-! ## Whole inputs -/

/-- A codec of whole inputs, known by what it reads to the end. -/
structure Whole (ok : List Token → Prop) (α : Type) where
  read : Bytes → Option (α × Bytes)
  ofData : Data → Option α
  Fits : Data → Prop
  Framed : Encoding → Prop
  isSome_ofData : ∀ d, (ofData d).isSome ↔ Fits d
  read_encode_iff : ∀ {e x}, ok e.tokens →
    (read e.encode = some (x, []) ↔ Framed e ∧ ofData e.data = some x)

namespace Whole

/-- A codec that takes all of what it reads. -/
def ofCodec [hok : IsInput ok] (codec : Codec ok α) : Whole ok α where
  read := codec.read
  ofData := codec.ofData
  Fits := codec.Fits
  Framed := codec.Framed
  isSome_ofData := codec.isSome_ofData
  read_encode_iff he := codec.read_encode_iff he

/-- Constructors whose contents are each known by what is read of them to the end. -/
def ofConstrs [hok : IsInput ok] {read : γ → Bytes → Option (α × Bytes)}
    {ofFields : γ → List Data → Option α} {fits : γ → List Data → Prop}
    {framed : γ → Framing → List Encoding → Prop}
    (hfits : ∀ alt ds, (ofFields alt ds).isSome ↔ fits alt ds)
    (hread : ∀ {alt f es x}, ok (body f es) →
      (read alt (encodeAll (body f es)) = some (x, []) ↔
        framed alt f es ∧ ofFields alt (dataAll es) = some x))
    (alts : List γ) (hlen : alts.length ≤ 7) : Whole ok α where
  read := readConstr read alts
  ofData := ofConstr ofFields alts
  Fits := FitsConstr fits alts
  Framed := FramedConstr framed alts
  isSome_ofData := isSome_ofConstr hfits
  read_encode_iff {e x} he := by
    have hvalid := hok.fits he
    constructor
    · intro h
      rw [encode, ← e.tokens.append_nil] at h
      have hnil : ∀ token ∈ e.tokens ++ [], token.Fits := by simpa using hvalid
      obtain ⟨w, i, f, es, alt, rfl, halt, h⟩ := readConstr_tokens hlen hnil h
      rw [List.append_nil] at h
      obtain ⟨hframed, hdata⟩ := (hread (hok.tail he)).mp h
      refine ⟨⟨w, i, f, es, alt, rfl, halt, hframed⟩, ?_⟩
      rw [data, ofConstr, halt, Option.bind_some, hdata]
    · rintro ⟨⟨w, i, f, es, alt, rfl, halt, hframed⟩, hdata⟩
      rw [data, ofConstr, halt, Option.bind_some] at hdata
      rw [← List.append_nil (encode _), readConstr_constr hlen hvalid halt, List.append_nil]
      exact (hread (hok.tail he)).mpr ⟨hframed, hdata⟩

end Whole

end Lib.Plutus
