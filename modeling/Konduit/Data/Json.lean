import Konduit.Lib.Json
import Konduit.Data.Cheque
import Konduit.Data.Squash

/-!
# Bodies as JSON

The derived deserialisers read the fields as they are.  They know nothing of the checks of
constructors and CBOR decoders: any body in memory has a JSON document that reads as it
(`SquashBody.ofJson_toJson` and the lemmas around it).
-/

open Lib

namespace Konduit.Data

namespace Duration

/-- Seconds and nanoseconds, if together they are a duration. -/
def new (secs nanos : ℕ) : Option Duration :=
  if h : secs * 10 ^ 9 + nanos < 2 ^ 64 * 10 ^ 9 then some ⟨secs * 10 ^ 9 + nanos, h⟩ else none

/-- A duration from its seconds and its nanoseconds. -/
def ofFields : List Json → Option Duration
  | [secs, nanos] => do
    let secs ← secs.natBelow (2 ^ 64)
    let nanos ← nanos.natBelow (2 ^ 32)
    new secs nanos
  | _ => none

/-- A duration in JSON, which has these two fields only. -/
def ofJson (j : Json) : Option Duration := (j.strictFields ["secs", "nanos"]).bind ofFields

/-- A duration as its seconds and the nanoseconds below. -/
def toJson (self : Duration) : Json :=
  .obj [("secs", .int self.asSecs), ("nanos", .int self.subsecNanos)]

@[simp] lemma ofJson_toJson (self : Duration) : ofJson self.toJson = some self := by
  have hlt := self.lt
  have hsecs : self.asSecs < 2 ^ 64 := by
    rw [asSecs]
    omega
  have hnanos : self.subsecNanos < 2 ^ 32 := by
    rw [subsecNanos]
    omega
  have hsum : self.asSecs * 10 ^ 9 + self.subsecNanos = self.nanos := by
    rw [asSecs, subsecNanos]
    omega
  have hfields : self.toJson.strictFields ["secs", "nanos"] =
      some [.int self.asSecs, .int self.subsecNanos] := by
    simp [toJson, Json.strictFields, Json.field]
  rw [ofJson, hfields, Option.bind_some]
  refine Option.bind_eq_some_iff.mpr ⟨_, Json.natBelow_int hsecs,
    Option.bind_eq_some_iff.mpr ⟨_, Json.natBelow_int hnanos, ?_⟩⟩
  exact (dif_pos (by rw [hsum]; exact hlt)).trans (congrArg some (ext hsum))

end Duration

/-- A signature in JSON. -/
def Signature.ofJson (j : Json) : Option Signature := (j.hexN 64).map Signature.mk

/-- A signature, as a hexadecimal string. -/
def Signature.toJson (self : Signature) : Json := .ofBytes self.bytes.1

@[simp] lemma Signature.ofJson_toJson (self : Signature) : ofJson self.toJson = some self := by
  simp [ofJson, toJson]

namespace Latch

variable {T : Type} [Latch T]

/-- A lock or a secret in JSON. -/
def ofJson (j : Json) : Option T := (j.hexN 32).map Latch.ofBytes

/-- A lock or a secret, as a hexadecimal string. -/
def toJson (latch : T) : Json := .ofBytes (Latch.bytes latch).1

@[simp] lemma ofJson_toJson (latch : T) : ofJson (toJson latch) = some latch := by
  simp [ofJson, toJson, Latch.ofBytes_bytes]

end Latch

namespace ChequeBody

variable {T : Type} [Latch T]

/-- The body of a cheque from its fields, in order. -/
def ofFields : List Json → Option (ChequeBody T)
  | [index, amount, timeout, latch] => do
    let index ← index.u64
    let amount ← amount.u64
    let timeout ← Duration.ofJson timeout
    let latch ← Latch.ofJson latch
    return ⟨index, amount, timeout, latch⟩
  | _ => none

/-- The body of a cheque in JSON. -/
def ofJson (j : Json) : Option (ChequeBody T) :=
  (j.fields ["index", "amount", "timeout", "latch"]).bind ofFields

/-- The body of a cheque, as an object. -/
def toJson (self : ChequeBody T) : Json :=
  .obj [("index", .ofU64 self.index), ("amount", .ofU64 self.amount),
    ("timeout", self.timeout.toJson), ("latch", Latch.toJson self.latch)]

@[simp] lemma ofJson_toJson (self : ChequeBody T) : ofJson self.toJson = some self := by
  have hfields : self.toJson.fields ["index", "amount", "timeout", "latch"] =
      some [.ofU64 self.index, .ofU64 self.amount, self.timeout.toJson,
        Latch.toJson self.latch] := by
    simp [toJson, Json.fields, Json.field]
  rw [ofJson, hfields, Option.bind_some, ofFields, Json.u64_ofU64, Json.u64_ofU64,
    Duration.ofJson_toJson, Latch.ofJson_toJson]
  rfl

end ChequeBody

namespace Indexes

/-- The list as it is: no bound on its length, no order. -/
def ofJson (j : Json) : Option Indexes := (j.list Json.u64).map Indexes.mk

/-- Indexes, as an array. -/
def toJson (self : Indexes) : Json := .arr (self.items.map Json.ofU64)

@[simp] lemma ofJson_toJson (self : Indexes) : ofJson self.toJson = some self := by
  simp [ofJson, toJson, Json.list_arr Json.u64_ofU64]

end Indexes

namespace SquashBody

/-- The body of a squash from its fields, in order; it need not be well-formed. -/
def ofFields : List Json → Option SquashBody
  | [amount, index, exclude] => do
    let amount ← amount.u64
    let index ← index.u64
    let exclude ← Indexes.ofJson exclude
    return ⟨amount, index, exclude⟩
  | _ => none

/-- The body of a squash in JSON. -/
def ofJson (j : Json) : Option SquashBody :=
  (j.fields ["amount", "index", "exclude"]).bind ofFields

/-- The body of a squash, as an object. -/
def toJson (self : SquashBody) : Json :=
  .obj [("amount", .ofU64 self.amount), ("index", .ofU64 self.index),
    ("exclude", self.exclude.toJson)]

@[simp] lemma ofJson_toJson (self : SquashBody) : ofJson self.toJson = some self := by
  have hfields : self.toJson.fields ["amount", "index", "exclude"] =
      some [.ofU64 self.amount, .ofU64 self.index, self.exclude.toJson] := by
    simp [toJson, Json.fields, Json.field]
  rw [ofJson, hfields, Option.bind_some, ofFields, Json.u64_ofU64, Json.u64_ofU64,
    Indexes.ofJson_toJson]
  rfl

end SquashBody

namespace Squash

/-- A squash from its fields, in order. -/
def ofFields : List Json → Option (Squash .unverified)
  | [body, signature] => do
    let body ← SquashBody.ofJson body
    let signature ← Signature.ofJson signature
    return ⟨body, signature⟩
  | _ => none

/-- A squash in JSON. -/
def ofJson (j : Json) : Option (Squash .unverified) :=
  (j.fields ["body", "signature"]).bind ofFields

/-- A squash, as an object. -/
def toJson {V : VerifyState} (self : Squash V) : Json :=
  .obj [("body", self.body.toJson), ("signature", self.signature.toJson)]

@[simp] lemma ofJson_toJson (self : Squash .unverified) : ofJson self.toJson = some self := by
  have hfields : self.toJson.fields ["body", "signature"] =
      some [self.body.toJson, self.signature.toJson] := by
    simp [toJson, Json.fields, Json.field]
  rw [ofJson, hfields, Option.bind_some, ofFields, SquashBody.ofJson_toJson,
    Signature.ofJson_toJson]
  rfl

end Squash

end Konduit.Data
