import Konduit.Lib.Cursor
import Konduit.Lib.Reader

/-!
# Streams of payment updates

The client collects the chunks of a response in a buffer and takes values off it until one of them
is terminal.  What is no value is skipped up to the end of its line, if this line end has arrived;
otherwise the stream is given up.  So the outcome depends on how the bytes are cut into chunks, just
when the reader answers a terminal value somewhere in them and refuses some line before its end has
arrived (`independent_iff`).
-/

open Lib

namespace Konduit.Bln

/-! ### The reader -/

/-- The whitespace of JSON. -/
def isSpace (x : UInt8) : Bool := x == 0x20 || x == 0x09 || x == 0x0A || x == 0x0D

/-- The byte that ends a line. -/
def newline : UInt8 := 0x0A

/-- White space to the stream, but not to JSON. -/
def formFeed : UInt8 := 0x0C

/-- What is whitespace to the client. -/
def isAsciiWhitespace (x : UInt8) : Bool := isSpace x || x == formFeed

/-- A reader of JSON values.  It passes over whitespace before a value. -/
structure JsonReader (T E : Type) extends Reader T E where
  read_nil : read [] = .more
  value_space : ∀ {x b v n}, isSpace x → read b = .value v n → read (x :: b) = .value v (n + 1)
  error_space : ∀ {x b e}, isSpace x → read b = .error e → ∃ e', read (x :: b) = .error e'
  more_space : ∀ {x b}, isSpace x → read b = .more → read (x :: b) = .more
  error_formFeed : ∀ b, ∃ e, read (formFeed :: b) = .error e

/-! ### The stream -/

/-- Why a stream has no terminal value. -/
inductive StreamError (E : Type) where
  /-- The status of the response is not one of success. -/
  | api (status : ℕ) (message : Bytes)
  /-- A chunk did not arrive. -/
  | init (message : Bytes)
  /-- Status 500: unrecoverable JSON parse error in stream. -/
  | unrecoverable (e : E)
  /-- Status 500: stream closed without reaching terminal state. -/
  | closed (totalBytesReceived : ℕ)
deriving DecidableEq

/-- The status of a response, its body as text, and its body chunk by chunk. -/
structure Response where
  status : ℕ
  text : Bytes
  chunks : List (Except Bytes Bytes)

/-- What the loop over a buffer comes to. -/
inductive Drained (T E : Type) where
  | found (v : T)
  | failed (e : E)
  | waiting (buffer : Bytes)
deriving DecidableEq

/-- The value that was found. -/
def Drained.toOption {T E : Type} : Drained T E → Option T
  | found v => some v
  | failed _ | waiting _ => none

/-- Remove whitespace from the front. -/
def trim (b : Bytes) : Bytes := b.dropWhile isAsciiWhitespace

lemma length_trim_le (b : Bytes) : (trim b).length ≤ b.length :=
  (List.dropWhile_sublist _).length_le

lemma length_dropThrough_lt {b rest : Bytes} (h : Cursor.dropThrough b newline = some rest) :
    rest.length < b.length := by
  obtain ⟨line, -, rfl⟩ := Cursor.dropThrough_eq_some.mp h
  rw [List.length_append, List.length_cons]
  omega

section Stream

variable {T E : Type} (reader : JsonReader T E) (isTerminal : T → Bool)

/-- Take values off a buffer until one is terminal. -/
def drain (buffer : Bytes) : Drained T E :=
  match _h : reader.read buffer with
  | .value v offset =>
    if isTerminal v then .found v else drain (trim (buffer.drop offset))
  | .more => .waiting buffer
  | .error e =>
    match _h : Cursor.dropThrough buffer newline with
    | some rest => drain rest
    | none => .failed e
termination_by buffer.length
decreasing_by
  · have hpos := reader.offset_pos _h
    have hle := reader.offset_le _h
    have htrim := length_trim_le (buffer.drop offset)
    rw [List.length_drop] at htrim
    omega
  · exact length_dropThrough_lt _h

/-- Receive chunk by chunk. -/
def receive (buffer : Bytes) (totalBytesReceived : ℕ) :
    List (Except Bytes Bytes) → Except (StreamError E) T
  | [] => .error (.closed totalBytesReceived)
  | .error message :: _ => .error (.init message)
  | .ok chunk :: chunks =>
    match drain reader isTerminal (buffer ++ chunk) with
    | .found v => .ok v
    | .failed e => .error (.unrecoverable e)
    | .waiting buffer => receive buffer (totalBytesReceived + chunk.length) chunks

/-- What is made of a response: its stream where the status is a success, and else its text. -/
def executeStream (response : Response) : Except (StreamError E) T :=
  if 200 ≤ response.status ∧ response.status < 300 then
    receive reader isTerminal [] 0 response.chunks
  else .error (.api response.status response.text)

end Stream

/-- What the client looks at in an update of a payment. -/
structure RouterResponse where
  status : Bytes
deriving DecidableEq

namespace RouterResponse

/-- The status of a payment that was made. -/
def succeeded : Bytes := [0x53, 0x55, 0x43, 0x43, 0x45, 0x45, 0x44, 0x45, 0x44]

/-- The status of a payment that was given up. -/
def failed : Bytes := [0x46, 0x41, 0x49, 0x4C, 0x45, 0x44]

/-- The payment goes no further. -/
def isTerminal (self : RouterResponse) : Bool := self.status == succeeded || self.status == failed

end RouterResponse

/-- Wait for a payment to succeed or to fail. -/
def v2RouterSend {E : Type} (reader : JsonReader RouterResponse E) (response : Response) :
    Except (StreamError E) RouterResponse :=
  executeStream reader RouterResponse.isTerminal response

/-! ### The loop over a buffer -/

section Drain

variable {T E : Type} {reader : JsonReader T E} {isTerminal : T → Bool} {b c rest : Bytes} {v : T}
  {n : ℕ} {e : E} {x : UInt8}

lemma drain_of_terminal (h : reader.read b = .value v n) (hv : isTerminal v) :
    drain reader isTerminal b = .found v := by
  rw [drain]
  split
  · next v' n' h' =>
    cases h.symm.trans h'
    rw [if_pos hv]
  · next h' => cases h.symm.trans h'
  · next h' => cases h.symm.trans h'

lemma drain_of_value (h : reader.read b = .value v n) (hv : ¬isTerminal v) :
    drain reader isTerminal b = drain reader isTerminal (trim (b.drop n)) := by
  rw [drain]
  split
  · next v' n' h' =>
    cases h.symm.trans h'
    rw [if_neg hv]
  · next h' => cases h.symm.trans h'
  · next h' => cases h.symm.trans h'

lemma drain_of_more (h : reader.read b = .more) : drain reader isTerminal b = .waiting b := by
  rw [drain]
  split
  · next h' => cases h.symm.trans h'
  · rfl
  · next h' => cases h.symm.trans h'

lemma drain_of_line (h : reader.read b = .error e)
    (hline : Cursor.dropThrough b newline = some rest) :
    drain reader isTerminal b = drain reader isTerminal rest := by
  rw [drain]
  split
  · next h' => cases h.symm.trans h'
  · next h' => cases h.symm.trans h'
  · split
    · next hline' =>
      cases hline.symm.trans hline'
      rfl
    · next hline' => cases hline.symm.trans hline'

lemma drain_of_error (h : reader.read b = .error e)
    (hline : Cursor.dropThrough b newline = none) :
    drain reader isTerminal b = .failed e := by
  rw [drain]
  split
  · next h' => cases h.symm.trans h'
  · next h' => cases h.symm.trans h'
  · next h' =>
    cases h.symm.trans h'
    split
    · next hline' => cases hline.symm.trans hline'
    · rfl

lemma drain_nil : drain reader isTerminal [] = .waiting [] := drain_of_more reader.read_nil

end Drain

/-! ### When the buffer grows -/

section Append

variable {T E : Type} {reader : JsonReader T E} {isTerminal : T → Bool} {b b' c rest : Bytes}
  {v : T} {n : ℕ} {e : E}

lemma dropThrough_eq_none : Cursor.dropThrough b newline = none ↔ newline ∉ b := by
  rw [← Cursor.dropThrough_isSome, not_exists, Option.eq_none_iff_forall_ne_some]

/-- What waits has no value yet. -/
lemma read_of_waiting (h : drain reader isTerminal b = .waiting b') : reader.read b' = .more := by
  induction b using drain.induct reader isTerminal with
  | case1 b v n hread hv => cases (drain_of_terminal hread hv).symm.trans h
  | case2 b v n hread hv ih => exact ih ((drain_of_value hread hv).symm.trans h)
  | case3 b hread =>
    rw [drain_of_more hread] at h
    cases h
    exact hread
  | case4 b e hread rest hline ih => exact ih ((drain_of_line hread hline).symm.trans h)
  | case5 b e hread hline => cases (drain_of_error hread hline).symm.trans h

end Append

/-! ### Spaces in front -/

section Spaces

variable {T E : Type} {reader : JsonReader T E} {isTerminal : T → Bool} {b w : Bytes} {x : UInt8}
  {d d' d'' : Drained T E} {v : T} {n : ℕ} {e : E}

lemma value_of_space (hx : isSpace x) (h : reader.read (x :: b) = .value v n) :
    ∃ m, reader.read b = .value v m ∧ n = m + 1 := by
  cases hread : reader.read b with
  | value v' m =>
    cases (reader.value_space hx hread).symm.trans h
    exact ⟨m, rfl, rfl⟩
  | more => cases (reader.more_space hx hread).symm.trans h
  | error e =>
    obtain ⟨e', he⟩ := reader.error_space hx hread
    cases he.symm.trans h

lemma error_of_space (hx : isSpace x) (h : reader.read (x :: b) = .error e) :
    ∃ e', reader.read b = .error e' := by
  cases hread : reader.read b with
  | value v m => cases (reader.value_space hx hread).symm.trans h
  | more => cases (reader.more_space hx hread).symm.trans h
  | error e' => exact ⟨e', rfl⟩

/-- A value is read after the spaces before it. -/
lemma value_of_spaces (hw : ∀ x ∈ w, isSpace x) (h : reader.read (w ++ b) = .value v n) :
    ∃ m, reader.read b = .value v m ∧ (w ++ b).drop n = b.drop m := by
  induction w generalizing n with
  | nil => exact ⟨n, h, rfl⟩
  | cons x w ih =>
    rw [List.forall_mem_cons] at hw
    obtain ⟨k, hk, rfl⟩ := value_of_space hw.1 h
    exact ih hw.2 hk

lemma error_of_spaces (hw : ∀ x ∈ w, isSpace x) (h : reader.read (w ++ b) = .error e) :
    ∃ e', reader.read b = .error e' := by
  induction w generalizing e with
  | nil => exact ⟨e, h⟩
  | cons x w ih =>
    rw [List.forall_mem_cons] at hw
    obtain ⟨e', he'⟩ := error_of_space hw.1 h
    exact ih hw.2 he'

/-- The same, up to spaces before what waits. -/
inductive Same : Drained T E → Drained T E → Prop where
  | found (v : T) : Same (.found v) (.found v)
  | failed (e e' : E) : Same (.failed e) (.failed e')
  | waiting {w : Bytes} (hw : ∀ x ∈ w, isSpace x) (b : Bytes) :
      Same (.waiting (w ++ b)) (.waiting b)

lemma Same.refl (d : Drained T E) : Same d d := by
  cases d with
  | found v => exact .found v
  | failed e => exact .failed e e
  | waiting b => exact .waiting (w := []) (by simp) b

lemma Same.trans (h : Same d d') (h' : Same d' d'') : Same d d'' := by
  cases h with
  | found v => exact h'
  | failed e e' =>
    cases h'
    exact .failed e _
  | waiting hw b =>
    generalize hb : Drained.waiting b = d' at h'
    cases h' with
    | found | failed => cases hb
    | waiting hw' b' =>
      cases hb
      rw [← List.append_assoc]
      exact .waiting (fun x hx => (List.mem_append.mp hx).elim (hw x) (hw' x)) b'

/-- A space is passed over, or skipped as a line of its own. -/
lemma same_drain_cons (hx : isSpace x) (b : Bytes) :
    Same (drain reader isTerminal (x :: b)) (drain reader isTerminal b) := by
  cases hread : reader.read b with
  | value v n =>
    have hspace := reader.value_space hx hread
    by_cases hv : isTerminal v
    · rw [drain_of_terminal hspace hv, drain_of_terminal hread hv]
      exact .found v
    · rw [drain_of_value hspace hv, drain_of_value hread hv, List.drop_succ_cons]
      exact .refl _
  | more =>
    rw [drain_of_more hread, drain_of_more (reader.more_space hx hread)]
    exact .waiting (w := [x]) (by simpa using hx) b
  | error e =>
    obtain ⟨e', hspace⟩ := reader.error_space hx hread
    by_cases hnewline : x = newline
    · have hline : Cursor.dropThrough (x :: b) newline = some b := if_pos hnewline
      rw [drain_of_line hspace hline]
      exact .refl _
    · have hline : Cursor.dropThrough (x :: b) newline = Cursor.dropThrough b newline :=
        if_neg hnewline
      cases hrest : Cursor.dropThrough b newline with
      | none =>
        rw [drain_of_error hspace (hline.trans hrest), drain_of_error hread hrest]
        exact .failed e' e
      | some rest =>
        rw [drain_of_line hspace (hline.trans hrest), drain_of_line hread hrest]
        exact .refl _

variable (reader isTerminal) in
lemma same_drain_append (hw : ∀ x ∈ w, isSpace x) (b : Bytes) :
    Same (drain reader isTerminal (w ++ b)) (drain reader isTerminal b) := by
  induction w with
  | nil => exact .refl _
  | cons x w ih =>
    rw [List.forall_mem_cons] at hw
    exact (same_drain_cons hw.1 (w ++ b)).trans (ih hw.2)

/-- What is trimmed are spaces, unless there is a form feed among them. -/
lemma trim_cases (c : Bytes) :
    (∃ w, (∀ x ∈ w, isSpace x) ∧ c = w ++ trim c) ∨
      ∃ w rest, (∀ x ∈ w, isSpace x) ∧ c = w ++ formFeed :: rest := by
  induction c with
  | nil => exact Or.inl ⟨[], by simp, rfl⟩
  | cons x c ih =>
    by_cases hx : isSpace x
    · have htrim : trim (x :: c) = trim c :=
        List.dropWhile_cons_of_pos (by rw [isAsciiWhitespace, hx, Bool.true_or])
      rw [htrim]
      rcases ih with ⟨w, hw, hc⟩ | ⟨w, rest, hw, hc⟩
      · exact Or.inl ⟨x :: w, List.forall_mem_cons.mpr ⟨hx, hw⟩, congrArg (x :: ·) hc⟩
      · exact Or.inr ⟨x :: w, rest, List.forall_mem_cons.mpr ⟨hx, hw⟩, congrArg (x :: ·) hc⟩
    · by_cases hfeed : x = formFeed
      · subst hfeed
        exact Or.inr ⟨[], c, by simp, rfl⟩
      · have htrim : trim (x :: c) = x :: c := by
          refine List.dropWhile_cons_of_neg ?_
          rw [isAsciiWhitespace, Bool.or_eq_true, beq_iff_eq, not_or]
          exact ⟨hx, hfeed⟩
        exact Or.inl ⟨[], by simp, htrim.symm⟩

lemma trim_of_spaces (hw : ∀ x ∈ w, isSpace x) : trim w = [] := by
  induction w with
  | nil => rfl
  | cons x w ih =>
    rw [List.forall_mem_cons] at hw
    rw [trim, List.dropWhile_cons_of_pos (by rw [isAsciiWhitespace, hw.1, Bool.true_or])]
    exact ih hw.2

/-- What has grown is trimmed like before, unless that is used up. -/
lemma trim_append (b c : Bytes) :
    trim (b ++ c) = if trim b = [] then trim c else trim b ++ c := by
  rw [trim, trim, trim, List.dropWhile_append]
  simp only [List.isEmpty_iff]

end Spaces

/-! ### Where values and lines start -/

section Starts

variable {T E : Type} (reader : JsonReader T E) (isTerminal : T → Bool)

/-- Where in the bytes a value or a line starts, as the reader answers: behind each value that is
not terminal and the whitespace after it, and behind the line of each refusal.  Where a prefix is
all used up, a form feed that comes next starts a line of its own. -/
inductive Starts : Bytes → Bytes → Prop where
  | start (b : Bytes) : Starts b b
  | value {b s : Bytes} {v : T} {n : ℕ} (h : Starts b s) (hread : reader.read s = .value v n)
      (hv : ¬isTerminal v) : Starts b (trim (s.drop n))
  | line {b line rest : Bytes} {e : E} (h : Starts b (line ++ newline :: rest))
      (hline : newline ∉ line) (hread : reader.read (line ++ newline :: rest) = .error e) :
      Starts b rest
  | formFeed {b : Bytes} (h : Starts b []) (rest : Bytes) :
      Starts (b ++ formFeed :: rest) (formFeed :: rest)

/-- The reader answers a terminal value somewhere in the bytes. -/
def HasTerminal (b : Bytes) : Prop :=
  ∃ s v n, Starts reader isTerminal b s ∧ reader.read s = .value v n ∧ isTerminal v

/-- The reader refuses a line of the bytes before its end has arrived. -/
def RefusesEarly (bytes : Bytes) : Prop :=
  ∃ b line e, b <+: bytes ∧ Starts reader isTerminal b line ∧ newline ∉ line ∧
    reader.read line = .error e

/-- A buffer is, but for spaces, what starts somewhere in the bytes. -/
def At (b buffer : Bytes) : Prop :=
  ∃ w s, buffer = w ++ s ∧ (∀ x ∈ w, isSpace x) ∧ Starts reader isTerminal b s

variable {reader isTerminal} {b b' c s buffer bytes : Bytes} {v : T} {n : ℕ} {e : E}

lemma Starts.at (h : Starts reader isTerminal b s) : At reader isTerminal b s :=
  ⟨[], s, rfl, by simp, h⟩

/-- Where more arrives after all has been used up, it is trimmed or starts there. -/
lemma at_of_usedUp (h : Starts reader isTerminal (b ++ c) (trim c))
    (hnil : ∀ w : Bytes, (∀ x ∈ w, isSpace x) → Starts reader isTerminal (b ++ w) []) :
    At reader isTerminal (b ++ c) c := by
  rcases trim_cases c with ⟨w, hw, hc⟩ | ⟨w, rest, hw, rfl⟩
  · exact ⟨w, trim c, hc, hw, h⟩
  · refine ⟨w, formFeed :: rest, rfl, hw, ?_⟩
    rw [← List.append_assoc]
    exact .formFeed (hnil w hw) rest

/-- Where a value is passed, what comes behind it starts there too when more has arrived. -/
lemma At.value (h : At reader isTerminal (b ++ c) (s ++ c)) (hread : reader.read s = .value v n)
    (hv : ¬isTerminal v) : Starts reader isTerminal (b ++ c) (trim (s.drop n ++ c)) := by
  obtain ⟨w, s', hs', hw, hstarts⟩ := h
  have happend := reader.value_append hread c
  rw [hs'] at happend
  obtain ⟨m, hm, hdrop⟩ := value_of_spaces hw happend
  rw [← List.drop_append_of_le_length (reader.offset_le hread), hs', hdrop]
  exact .value hstarts hm hv

/-- What starts somewhere does so, but for spaces, when more has arrived. -/
lemma Starts.append (h : Starts reader isTerminal b s) (c : Bytes) :
    At reader isTerminal (b ++ c) (s ++ c) := by
  induction h generalizing c with
  | start b => exact (Starts.start _).at
  | @value b s v n _ hread hv ih =>
    have hvalue := (ih c).value hread hv
    by_cases hnil : trim (s.drop n) = []
    · rw [hnil, List.nil_append]
      rw [trim_append, if_pos hnil] at hvalue
      refine at_of_usedUp hvalue fun w hw => ?_
      have hspaces := (ih w).value hread hv
      rwa [trim_append, if_pos hnil, trim_of_spaces hw] at hspaces
    · rw [trim_append, if_neg hnil] at hvalue
      exact hvalue.at
  | @line b line rest e _ hline hread ih =>
    obtain ⟨w, s, hs, hw, hstarts⟩ := ih c
    have happend := reader.error_append hread c
    rw [hs] at happend
    obtain ⟨e', he'⟩ := error_of_spaces hw happend
    rw [List.append_assoc, List.cons_append, List.append_eq_append_iff] at hs
    rcases hs with ⟨line', rfl, hs⟩ | ⟨line', rfl, rfl⟩
    · -- the line ends among the spaces, or where they do
      cases line' with
      | nil =>
        rw [List.nil_append] at hs
        subst hs
        exact (@Starts.line _ _ _ _ _ [] _ _ hstarts (by simp) he').at
      | cons x line' =>
        rw [List.cons_append, List.cons.injEq] at hs
        exact ⟨line', s, hs.2, fun x hx => hw x (by simp [hx]), hstarts⟩
    · rw [List.mem_append, not_or] at hline
      exact (Starts.line hstarts hline.2 he').at
  | @formFeed b h rest _ =>
    rw [List.append_assoc, List.cons_append]
    exact (Starts.formFeed h (rest ++ c)).at

lemma At.append (h : At reader isTerminal b buffer) (c : Bytes) :
    At reader isTerminal (b ++ c) (buffer ++ c) := by
  obtain ⟨w, s, rfl, hw, hs⟩ := h
  obtain ⟨w', s', hs', hw', hstarts⟩ := hs.append c
  refine ⟨w ++ w', s', ?_, fun x hx => (List.mem_append.mp hx).elim (hw x) (hw' x), hstarts⟩
  rw [List.append_assoc, hs', List.append_assoc]

/-! ### What the loop over a buffer comes to -/

variable (reader isTerminal) in
/-- What the loop comes to, by what the reader answers where something starts. -/
inductive Comes (b : Bytes) : Drained T E → Prop where
  | found {s : Bytes} {v : T} {n : ℕ} (h : Starts reader isTerminal b s)
      (hread : reader.read s = .value v n) (hv : isTerminal v) : Comes b (.found v)
  | failed {line : Bytes} {e : E} (h : Starts reader isTerminal b line) (hline : newline ∉ line)
      (hread : reader.read line = .error e) : Comes b (.failed e)
  | waiting {s : Bytes} (h : Starts reader isTerminal b s) (hread : reader.read s = .more) :
      Comes b (.waiting s)

lemma Starts.comes (h : Starts reader isTerminal b s) :
    Comes reader isTerminal b (drain reader isTerminal s) := by
  induction s using drain.induct reader isTerminal with
  | case1 s v n hread hv =>
    rw [drain_of_terminal hread hv]
    exact .found h hread hv
  | case2 s v n hread hv ih =>
    rw [drain_of_value hread hv]
    exact ih (.value h hread hv)
  | case3 s hread =>
    rw [drain_of_more hread]
    exact .waiting h hread
  | case4 s e hread rest hrest ih =>
    rw [drain_of_line hread hrest]
    obtain ⟨line, hline, rfl⟩ := Cursor.dropThrough_eq_some.mp hrest
    exact ih (.line h hline hread)
  | case5 s e hread hline =>
    rw [drain_of_error hread hline]
    exact .failed h (dropThrough_eq_none.mp hline) hread

lemma RefusesEarly.mono (h : RefusesEarly reader isTerminal b) (hb : b <+: bytes) :
    RefusesEarly reader isTerminal bytes := by
  obtain ⟨b', line, e, hb', hstarts⟩ := h
  exact ⟨b', line, e, hb'.trans hb, hstarts⟩

lemma refusesEarly_of_failed (h : Comes reader isTerminal b (.failed e)) :
    RefusesEarly reader isTerminal b := by
  cases h with
  | failed h hline hread => exact ⟨b, _, e, List.prefix_rfl, h, hline, hread⟩

/-- A form feed that starts a line is refused at once. -/
lemma refusesEarly_of_formFeed (h : Starts reader isTerminal b []) (rest : Bytes) :
    RefusesEarly reader isTerminal (b ++ formFeed :: rest) := by
  obtain ⟨e, he⟩ := reader.error_formFeed []
  refine ⟨b ++ [formFeed], [formFeed], e, ⟨rest, by simp⟩, .formFeed h [], by decide, he⟩

/-- Where no line is refused early, the loop comes from any place to what it comes to at all. -/
lemma Starts.drain_eq (h : Starts reader isTerminal b s)
    (hnot : ¬RefusesEarly reader isTerminal b) :
    drain reader isTerminal b = drain reader isTerminal s := by
  induction h with
  | start b => rfl
  | value _ hread hv ih => rw [ih hnot, drain_of_value hread hv]
  | line _ hline hread ih =>
    rw [ih hnot, drain_of_line hread (Cursor.dropThrough_eq_some.mpr ⟨_, hline, rfl⟩)]
  | formFeed h rest => exact absurd (refusesEarly_of_formFeed h rest) hnot

end Starts

/-! ### Cutting a stream -/

section Cuts

variable {T E : Type} (reader : JsonReader T E) (isTerminal : T → Bool)

/-- A response whose chunks all arrive. -/
def arriving (chunks : List Bytes) : Response := ⟨200, [], chunks.map .ok⟩

/-- The terminal value of a stream that arrives in chunks, if it comes to one. -/
def outcome (chunks : List Bytes) : Option T :=
  (executeStream reader isTerminal (arriving chunks)).toOption

/-- However a stream is cut, the outcome is the same: the same value, or an error. -/
def Independent (bytes : Bytes) : Prop :=
  ∀ chunks chunks' : List Bytes, chunks.flatten = bytes → chunks'.flatten = bytes →
    outcome reader isTerminal chunks = outcome reader isTerminal chunks'

variable {reader isTerminal} {b b' c s bytes buffer : Bytes} {total : ℕ} {v : T} {e : E}
  {chunks : List Bytes}

lemma outcome_eq (chunks : List Bytes) :
    outcome reader isTerminal chunks =
      (receive reader isTerminal [] 0 (chunks.map .ok)).toOption := by
  rw [outcome, executeStream, arriving, if_pos (show 200 ≤ 200 ∧ 200 < 300 by decide)]

lemma receive_of_found (h : drain reader isTerminal (b ++ c) = .found v) :
    receive reader isTerminal b total ((c :: chunks).map .ok) = .ok v := by
  rw [List.map_cons, receive, h]

lemma receive_of_failed (h : drain reader isTerminal (b ++ c) = .failed e) :
    receive reader isTerminal b total ((c :: chunks).map .ok) = .error (.unrecoverable e) := by
  rw [List.map_cons, receive, h]

lemma receive_of_waiting (h : drain reader isTerminal (b ++ c) = .waiting b') :
    receive reader isTerminal b total ((c :: chunks).map .ok) =
      receive reader isTerminal b' (total + c.length) (chunks.map .ok) := by
  rw [List.map_cons, receive, h]

/-! ### What a cutting comes to -/

lemma At.comes (h : At reader isTerminal b buffer) :
    ∃ d, Comes reader isTerminal b d ∧ Same (drain reader isTerminal buffer) d := by
  obtain ⟨w, s, rfl, hw, hs⟩ := h
  exact ⟨_, hs.comes, same_drain_append reader isTerminal hw s⟩

lemma At.found (h : At reader isTerminal b buffer)
    (hd : drain reader isTerminal buffer = .found v) : Comes reader isTerminal b (.found v) := by
  obtain ⟨d, hcomes, hsame⟩ := h.comes
  rw [hd] at hsame
  cases hsame
  exact hcomes

lemma At.failed (h : At reader isTerminal b buffer)
    (hd : drain reader isTerminal buffer = .failed e) : RefusesEarly reader isTerminal b := by
  obtain ⟨d, hcomes, hsame⟩ := h.comes
  rw [hd] at hsame
  cases hsame
  exact refusesEarly_of_failed hcomes

lemma At.waiting (h : At reader isTerminal b buffer)
    (hd : drain reader isTerminal buffer = .waiting b') : At reader isTerminal b b' := by
  obtain ⟨d, hcomes, hsame⟩ := h.comes
  rw [hd] at hsame
  cases hsame with
  | waiting hw s =>
    cases hcomes with
    | waiting h hread => exact ⟨_, s, rfl, hw, h⟩

lemma Comes.found_append (h : Comes reader isTerminal b (.found v)) (c : Bytes) :
    Comes reader isTerminal (b ++ c) (.found v) := by
  cases h with
  | found h hread hv =>
    obtain ⟨w, s, hs, hw, hstarts⟩ := h.append c
    have happend := reader.value_append hread c
    rw [hs] at happend
    obtain ⟨m, hm, -⟩ := value_of_spaces hw happend
    exact .found hstarts hm hv

lemma Comes.drain_eq (h : Comes reader isTerminal b (.found v))
    (hnot : ¬RefusesEarly reader isTerminal b) : drain reader isTerminal b = .found v := by
  cases h with
  | found h hread hv => rw [h.drain_eq hnot, drain_of_terminal hread hv]

/-- What is received is somewhere among the bytes. -/
lemma comes_of_receive (h : At reader isTerminal b buffer)
    (hv : receive reader isTerminal buffer total (chunks.map .ok) = .ok v) :
    Comes reader isTerminal (b ++ chunks.flatten) (.found v) := by
  induction chunks generalizing b buffer total with
  | nil => cases hv
  | cons c chunks ih =>
    rw [List.flatten_cons, ← List.append_assoc]
    have happend := h.append c
    cases hd : drain reader isTerminal (buffer ++ c) with
    | found v' =>
      rw [receive_of_found hd] at hv
      cases hv
      exact (happend.found hd).found_append _
    | failed e =>
      rw [receive_of_failed hd] at hv
      cases hv
    | waiting b' =>
      rw [receive_of_waiting hd] at hv
      exact ih (happend.waiting hd) hv

/-- Where no line is refused early, what is received is what the loop comes to when all is there. -/
lemma toOption_receive (hnot : ¬RefusesEarly reader isTerminal (b ++ chunks.flatten))
    (h : At reader isTerminal b buffer) (hmore : reader.read buffer = .more) :
    (receive reader isTerminal buffer total (chunks.map .ok)).toOption =
      (drain reader isTerminal (b ++ chunks.flatten)).toOption := by
  induction chunks generalizing b buffer total with
  | nil =>
    rw [List.flatten_nil, List.append_nil] at hnot ⊢
    obtain ⟨w, s, rfl, hw, hs⟩ := h
    have hsame := same_drain_append reader isTerminal hw s
    rw [drain_of_more hmore, ← hs.drain_eq hnot] at hsame
    generalize drain reader isTerminal b = d at hsame
    generalize w ++ s = buffer at hsame
    cases hsame
    rfl
  | cons c chunks ih =>
    rw [List.flatten_cons, ← List.append_assoc] at hnot ⊢
    have happend := h.append c
    cases hd : drain reader isTerminal (buffer ++ c) with
    | found v =>
      rw [receive_of_found hd, ((happend.found hd).found_append _).drain_eq hnot]
      rfl
    | failed e => exact absurd ((happend.failed hd).mono (List.prefix_append _ _)) hnot
    | waiting b' =>
      rw [receive_of_waiting hd]
      exact ih hnot (happend.waiting hd) (read_of_waiting hd)

lemma independent_of_not_hasTerminal (hnot : ¬HasTerminal reader isTerminal bytes) :
    Independent reader isTerminal bytes := by
  have hnone : ∀ chunks : List Bytes, chunks.flatten = bytes →
      outcome reader isTerminal chunks = none := by
    rintro chunks rfl
    rw [outcome_eq]
    cases hv : receive reader isTerminal [] 0 (chunks.map .ok) with
    | error e => rfl
    | ok v =>
      have hcomes := comes_of_receive (Starts.start []).at hv
      rw [List.nil_append] at hcomes
      cases hcomes with
      | found h hread hv => exact absurd ⟨_, _, _, h, hread, hv⟩ hnot
  intro chunks chunks' h h'
  rw [hnone chunks h, hnone chunks' h']

lemma independent_of_not_refusesEarly (hnot : ¬RefusesEarly reader isTerminal bytes) :
    Independent reader isTerminal bytes := by
  have houtcome : ∀ chunks : List Bytes, chunks.flatten = bytes →
      outcome reader isTerminal chunks = (drain reader isTerminal bytes).toOption := by
    rintro chunks rfl
    rw [outcome_eq]
    exact toOption_receive (b := []) hnot (Starts.start []).at reader.read_nil
  intro chunks chunks' h h'
  rw [houtcome chunks h, houtcome chunks' h']

/-! ### Cutting where something starts -/

/-- A stream can be cut so that the loop comes to what starts somewhere. -/
lemma Starts.exists_chunks (h : Starts reader isTerminal b s) :
    ∃ chunks c, chunks.flatten ++ c = b ∧ drain reader isTerminal c = drain reader isTerminal s ∧
      ∀ more : List Bytes, receive reader isTerminal [] 0 ((chunks ++ more).map .ok) =
        receive reader isTerminal [] chunks.flatten.length (more.map .ok) := by
  induction h with
  | start b => exact ⟨[], b, rfl, rfl, fun more => rfl⟩
  | value _ hread hv ih =>
    obtain ⟨chunks, c, hb, hc, hmore⟩ := ih
    exact ⟨chunks, c, hb, hc.trans (drain_of_value hread hv), hmore⟩
  | line _ hline hread ih =>
    obtain ⟨chunks, c, hb, hc, hmore⟩ := ih
    refine ⟨chunks, c, hb, hc.trans (drain_of_line hread ?_), hmore⟩
    exact Cursor.dropThrough_eq_some.mpr ⟨_, hline, rfl⟩
  | @formFeed b _ rest ih =>
    -- all is used up, so a chunk can end before the form feed
    obtain ⟨chunks, c, rfl, hc, hmore⟩ := ih
    refine ⟨chunks ++ [c], _, by simp, rfl, fun more => ?_⟩
    rw [List.append_assoc, hmore, List.singleton_append,
      receive_of_waiting (by rw [List.nil_append, hc, drain_nil]), List.flatten_append,
      List.flatten_singleton, List.length_append]

lemma exists_chunks_of_hasTerminal (h : HasTerminal reader isTerminal bytes) :
    ∃ (chunks : List Bytes) (v : T), chunks.flatten = bytes ∧
      outcome reader isTerminal chunks = some v := by
  obtain ⟨s, v, n, hs, hread, hv⟩ := h
  obtain ⟨chunks, c, rfl, hc, hmore⟩ := hs.exists_chunks
  refine ⟨chunks ++ [c], v, by simp, ?_⟩
  rw [outcome_eq, hmore, receive_of_found]
  · rfl
  · rw [List.nil_append, hc, drain_of_terminal hread hv]

/-- Where a line is refused early, the stream is given up when it is cut there. -/
lemma exists_chunks_of_refusesEarly (h : RefusesEarly reader isTerminal bytes) :
    ∃ chunks : List Bytes, chunks.flatten = bytes ∧ outcome reader isTerminal chunks = none := by
  obtain ⟨b, line, e, ⟨rest, rfl⟩, hs, hline, hread⟩ := h
  obtain ⟨chunks, c, rfl, hc, hmore⟩ := hs.exists_chunks
  refine ⟨chunks ++ [c, rest], by simp, ?_⟩
  rw [outcome_eq, hmore, receive_of_failed]
  · rfl
  · rw [List.nil_append, hc, drain_of_error hread (dropThrough_eq_none.mpr hline)]

/-- However the stream is cut, the outcome is the same, just when the reader answers no terminal
value anywhere in it, or refuses no line of it before its end has arrived. -/
theorem independent_iff (reader : JsonReader T E) (isTerminal : T → Bool) (bytes : Bytes) :
    Independent reader isTerminal bytes ↔
      ¬HasTerminal reader isTerminal bytes ∨ ¬RefusesEarly reader isTerminal bytes := by
  constructor
  · intro h
    by_contra hnot
    rw [not_or, not_not, not_not] at hnot
    obtain ⟨chunks, v, hchunks, hfound⟩ := exists_chunks_of_hasTerminal hnot.1
    obtain ⟨chunks', hchunks', hnone⟩ := exists_chunks_of_refusesEarly hnot.2
    have heq := h chunks chunks' hchunks hchunks'
    rw [hfound, hnone] at heq
    cases heq
  · rintro (hnot | hnot)
    · exact independent_of_not_hasTerminal hnot
    · exact independent_of_not_refusesEarly hnot

/-- A payment that succeeds or fails under one cutting of a stream whose lines are not refused early
does so under any other. -/
theorem v2RouterSend_eq_ok {reader : JsonReader RouterResponse E} {chunks chunks' : List Bytes}
    (hnot : ¬RefusesEarly reader RouterResponse.isTerminal chunks.flatten)
    (hflatten : chunks'.flatten = chunks.flatten) {response : RouterResponse}
    (h : v2RouterSend reader (arriving chunks) = .ok response) :
    v2RouterSend reader (arriving chunks') = .ok response := by
  have hindependent := independent_of_not_refusesEarly hnot chunks' chunks hflatten rfl
  rw [outcome, outcome, ← v2RouterSend, ← v2RouterSend, h] at hindependent
  cases h' : v2RouterSend reader (arriving chunks') with
  | error e =>
    rw [h'] at hindependent
    cases hindependent
  | ok response' =>
    rw [h'] at hindependent
    cases hindependent
    rfl

end Cuts

/-! ### A line that is no value -/

/-- Where a reader stands in an update. -/
inductive SampleState where
  | start
  | text (rest : Bytes)
  | status (read : Bytes)
  | close (status : Bytes) (last : Bool)

/-- What comes between the first brace and the status: `"result":{"status":"`. -/
def sampleText : Bytes :=
  [0x22, 0x72, 0x65, 0x73, 0x75, 0x6C, 0x74, 0x22, 0x3A, 0x7B,
    0x22, 0x73, 0x74, 0x61, 0x74, 0x75, 0x73, 0x22, 0x3A, 0x22]

/-- A reader of one text, after white space. -/
def sampleStep : SampleState → UInt8 → Reader.Step SampleState RouterResponse Unit
  | .start, x =>
    if isSpace x then .next .start
    else if x = 0x7B then .next (.text sampleText)
    else .refuse ()
  | .text [], _ => .refuse ()
  | .text (y :: rest), x =>
    if x = y then .next (if rest = [] then .status [] else .text rest) else .refuse ()
  | .status read, x =>
    if x = 0x22 then .next (.close read false)
    else if 0x41 ≤ x ∧ x ≤ 0x5A then .next (.status (read ++ [x]))
    else .refuse ()
  | .close status last, x =>
    if x = 0x7D then (if last then .done ⟨status⟩ else .next (.close status true))
    else .refuse ()

lemma scan_space {x : UInt8} (hx : isSpace x) (b : Bytes) :
    Reader.scan sampleStep .start (x :: b) = (Reader.scan sampleStep .start b).succ :=
  Reader.scan_of_next (if_pos hx)

/-- A reader of updates that have a status and nothing else. -/
def sampleReader : JsonReader RouterResponse Unit where
  toReader := .ofStep sampleStep .start
  read_nil := rfl
  value_space hx h := by
    rw [Reader.read_ofStep] at h ⊢
    rw [scan_space hx, h, Reading.succ]
  error_space hx h := by
    rw [Reader.read_ofStep] at h ⊢
    exact ⟨_, by rw [scan_space hx, h, Reading.succ]⟩
  more_space hx h := by
    rw [Reader.read_ofStep] at h ⊢
    rw [scan_space hx, h, Reading.succ]
  error_formFeed b := by
    rw [Reader.read_ofStep]
    exact ⟨(), Reader.scan_of_refuse rfl⟩

/-- The update of a payment. -/
def sampleUpdate (status : Bytes) : Bytes := 0x7B :: sampleText ++ status ++ [0x22, 0x7D, 0x7D]

/-- `oops` -/
def sampleLine : Bytes := [0x6F, 0x6F, 0x70, 0x73]

/-- A payment that succeeds, after a line that is no value.  It is skipped when its end has arrived,
and the payment is given up when it has not. -/
theorem not_independent_of_line :
    ¬Independent sampleReader RouterResponse.isTerminal
      (sampleLine ++ newline :: sampleUpdate RouterResponse.succeeded) := by
  intro h
  have hread : sampleReader.read (sampleLine ++ newline :: sampleUpdate RouterResponse.succeeded) =
      .error () := rfl
  have hvalue : sampleReader.read (sampleUpdate RouterResponse.succeeded) =
      .value ⟨RouterResponse.succeeded⟩ 33 := rfl
  have hfound : drain sampleReader RouterResponse.isTerminal
      (sampleLine ++ newline :: sampleUpdate RouterResponse.succeeded) =
        .found ⟨RouterResponse.succeeded⟩ := by
    rw [drain_of_line hread rfl, drain_of_terminal hvalue (by decide)]
  have hfailed : drain sampleReader RouterResponse.isTerminal sampleLine = .failed () :=
    drain_of_error rfl rfl
  have heq := h [_] [sampleLine, newline :: sampleUpdate RouterResponse.succeeded]
    List.flatten_singleton (by simp)
  rw [outcome_eq, outcome_eq, receive_of_found (by rwa [List.nil_append]),
    receive_of_failed (by rwa [List.nil_append])] at heq
  cases heq

end Konduit.Bln
