import Konduit.Data.Codecs

/-!
# The two decoders

For each type of the datum and of the redeemer, on every encoding of every data value, the stream
decoder and the conversion from data give the same values if and only if the encoding is framed as
the stream decoder expects, where the data is of the type (`decoders_agree_iff`): records and
constructors with fields are closed by a break, constructors without fields hold an empty array of
definite length, and hashes, locks, secrets and unpends are written whole.
-/

open Lib Lib.Plutus

namespace Konduit.Data

/-! ### Inputs -/

/-- The arguments of the tokens fit. -/
def Fitting (s : List Cbor.Token) : Prop := ∀ token ∈ s, token.Fits

/-- Besides, no tag is followed by an empty array of indefinite length. -/
def NotBare (s : List Cbor.Token) : Prop :=
  Fitting s ∧ ∀ w n, ¬[.tag w n, .beginArray, .stop] <:+: s

instance : IsInput Fitting where
  fits hs := hs
  drop hs token ht := hs token (List.mem_append_right _ ht)

instance : IsInput NotBare where
  fits hs := hs.1
  drop {c s} hs :=
    ⟨IsInput.drop hs.1, fun w n h => hs.2 w n (h.trans (List.suffix_append c s).isInfix)⟩

lemma not_notBare {w : Cbor.Width} {n : ℕ} {s : List Cbor.Token} :
    ¬NotBare (.tag w n :: .beginArray :: .stop :: s) := fun h =>
  h.2 w n (List.prefix_append [.tag w n, .beginArray, .stop] s).isInfix

/-! ### Types -/

/-- A redeemer whose steps may not be bare. -/
def Redeemer.whole : Whole NotBare Redeemer :=
  .ofConstrs Alt.isSome_ofFields (fun hs => Alt.read_body_iff _ hs) (alts not_notBare)
    (by simp [alts])

/-- A step that is closed by its own break. -/
def Step.whole : Whole Fitting Step :=
  .ofConstrs OpenCodec.isSome_ofField (fun hs => OpenCodec.read_framed_iff _ hs) opens
    (by simp [opens])

/-- A step that a channel goes on from, on its own. -/
def Cont.whole : Whole Fitting Cont :=
  .ofConstrs Alt.isSome_ofFields (fun hs => Alt.read_body_iff _ hs) alts (by simp [alts])

/-- A step that ends a channel, on its own. -/
def Eol.whole : Whole Fitting Eol :=
  .ofConstrs Alt.isSome_ofFields (fun hs => Alt.read_body_iff _ hs) alts (by simp [alts])

/-- The types of which values are decoded. -/
inductive WireType where
  | redeemer
  | step
  | cont
  | eol
  | stage
  | datum
  | constants
  | unpend
  | squashBody
deriving DecidableEq

namespace WireType

/-- The values of a wire type. -/
def Value : WireType → Type
  | redeemer => Redeemer
  | step => Step
  | cont => Cont
  | eol => Eol
  | stage => Stage
  | datum => Datum
  | constants => Constants
  | unpend => Unpend
  | squashBody => SquashBody

instance (w : WireType) : OnChain w.Value :=
  match w with
  | redeemer => inferInstanceAs (OnChain Redeemer)
  | step => inferInstanceAs (OnChain Step)
  | cont => inferInstanceAs (OnChain Cont)
  | eol => inferInstanceAs (OnChain Eol)
  | stage => inferInstanceAs (OnChain Stage)
  | datum => inferInstanceAs (OnChain Datum)
  | constants => inferInstanceAs (OnChain Constants)
  | unpend => inferInstanceAs (OnChain Unpend)
  | squashBody => inferInstanceAs (OnChain SquashBody)

/-- The inputs of which it is known how they are decoded. -/
def Admits : WireType → List Cbor.Token → Prop
  | redeemer => NotBare
  | _ => Fitting

instance (w : WireType) : IsInput w.Admits :=
  match w with
  | redeemer => inferInstanceAs (IsInput NotBare)
  | step | cont | eol | stage | datum | constants | unpend | squashBody =>
    inferInstanceAs (IsInput Fitting)

/-- The format of a type. -/
def whole : (w : WireType) → Whole w.Admits w.Value
  | redeemer => Redeemer.whole
  | step => Step.whole
  | cont => Cont.whole
  | eol => Eol.whole
  | stage => Whole.ofCodec (Stage.codec : Codec Fitting Stage)
  | datum => Whole.ofCodec (Datum.codec : Codec Fitting Datum)
  | constants => Whole.ofCodec (Constants.codec : Codec Fitting Constants)
  | unpend => Whole.ofCodec (Unpend.codec : Codec Fitting Unpend)
  | squashBody => Whole.ofCodec (SquashBody.codec : Codec Fitting SquashBody)

/-- The data is of the type. -/
def Fits (w : WireType) : Data → Prop := w.whole.Fits

/-- The encoding is framed as the stream decoder of the type expects. -/
def Framed (w : WireType) : Encoding → Prop := w.whole.Framed

end WireType

end Konduit.Data
