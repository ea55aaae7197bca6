import Konduit.Bln.Client
import Konduit.Data.Json

/-!
# Request bodies

A request body is JSON or CBOR, as its media type says.
-/

open Lib

namespace Konduit.Tmp

open Data

/-- The body of a request, by its media type. -/
inductive Document where
  | json (j : Json)
  | cbor (b : Bytes)

/-- Read a body; what follows the first CBOR item is not looked at. -/
def Document.unmediate {α : Type} (ofJson : Json → Option α)
    (decode : Bytes → Option (α × Bytes)) : Document → Option α
  | json j => ofJson j
  | cbor b => (decode b).map Prod.fst

/-- The body of a pay request. -/
structure PayBody where
  chequeBody : ChequeBody Lock
  signature : Signature
  invoice : Bln.Invoice
deriving DecidableEq

namespace PayBody

/-- Invoices are read from their text. -/
abbrev ParseInvoice := Bytes → Option Bln.Invoice

variable (parseInvoice : ParseInvoice)

/-- A body from the fields of its object, in order. -/
def ofFields : List Json → Option PayBody
  | [chequeBody, signature, .str invoice] => do
    let chequeBody ← ChequeBody.ofJson chequeBody
    let signature ← Signature.ofJson signature
    let invoice ← parseInvoice invoice.toUTF8.toList
    return ⟨chequeBody, signature, invoice⟩
  | _ => none

/-- A body in JSON. -/
def ofJson (j : Json) : Option PayBody :=
  (j.fields ["cheque_body", "signature", "invoice"]).bind (ofFields parseInvoice)

/-- A request body with this text for its invoice. -/
def toJson (self : PayBody) (text : String) : Json :=
  .obj [("cheque_body", self.chequeBody.toJson), ("signature", self.signature.toJson),
    ("invoice", .str text)]

/-- An invoice in CBOR, as its text. -/
def decodeInvoice (b : Bytes) : Option (Bln.Invoice × Bytes) := do
  let (text, b) ← Cbor.readText b
  let invoice ← parseInvoice text
  return (invoice, b)

/-- A body in CBOR. -/
def decode (b : Bytes) : Option (PayBody × Bytes) := do
  let (left, b) ← Cbor.readArray b
  let (chequeBody, left, b) ← Cbor.readField ChequeBody.decode none left b
  let (signature, left, b) ← Cbor.readField Signature.decode none left b
  let (invoice, left, b) ← Cbor.readField (decodeInvoice parseInvoice) none left b
  let (_, b) ← Cbor.readRest left b
  return (⟨chequeBody, signature, invoice⟩, b)

/-- A body in the media type that it came in. -/
def unmediate : Document → Option PayBody :=
  Document.unmediate (ofJson parseInvoice) (decode parseInvoice)

/-- The cheque that the body brings. -/
def locked (self : PayBody) : Locked .unverified := ⟨self.chequeBody, self.signature⟩

end PayBody

/-! ### What bodies are like -/

/-- Any cheque body arrives as JSON. -/
lemma PayBody.unmediate_toJson {parseInvoice : ParseInvoice} {self : PayBody} {text : String}
    (h : parseInvoice text.toUTF8.toList = some self.invoice) :
    unmediate parseInvoice (.json (self.toJson text)) = some self := by
  have hfields : (self.toJson text).fields ["cheque_body", "signature", "invoice"] =
      some [self.chequeBody.toJson, self.signature.toJson, .str text] := by
    simp [toJson, Json.fields, Json.field]
  rw [unmediate, Document.unmediate, ofJson, hfields, Option.bind_some, ofFields,
    ChequeBody.ofJson_toJson, Signature.ofJson_toJson, h]
  rfl

/-- A timeout that was read from CBOR is in whole milliseconds. -/
lemma PayBody.canonical_of_cbor {parseInvoice : ParseInvoice} {b : Bytes} {body : PayBody}
    (h : unmediate parseInvoice (.cbor b) = some body) : body.chequeBody.timeout.Canonical := by
  obtain ⟨⟨body', rest⟩, hdecode, rfl⟩ := Option.map_eq_some_iff.mp h
  simp only [decode, Option.bind_eq_bind, Option.bind_eq_some_iff, Option.pure_def,
    Option.some.injEq, Prod.mk.injEq] at hdecode
  obtain ⟨_, _, ⟨chequeBody, _, _⟩, hbody, _, _, _, _, _, _, rfl, _⟩ := hdecode
  obtain ⟨_, hbody⟩ := Cbor.readField_eq_some hbody
  simp only [ChequeBody.decode, Cbor.readFramed, ChequeBody.decodeFields, Option.bind_eq_bind,
    Option.bind_eq_some_iff, Option.pure_def, Option.some.injEq, Prod.mk.injEq] at hbody
  obtain ⟨_, _, _, ⟨_, _, _, _, ⟨timeout, _⟩, htimeout, _, _, rfl⟩, _, _, rfl, _⟩ := hbody
  exact Duration.canonical_of_decode htimeout

end Konduit.Tmp
