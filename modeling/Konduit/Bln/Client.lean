import Konduit.Data.Duration

/-!
# Payments over Lightning

What the client asks of the Lightning node for a payment, and how long the node may take
over it.  The node's time is in blocks.
-/

open Lib

namespace Konduit.Bln

open Data

/-- What the adaptor looks at in an invoice, and its text. -/
structure Invoice where
  text : Bytes
  amountMsat : UInt64
  paymentHash : BytesN 32
deriving DecidableEq

/-- What the server asks its client to pay. -/
structure PayRequest where
  feeLimit : UInt64
  relativeTimeout : Duration
  invoice : Invoice
deriving DecidableEq

/-- What a client is set up with. -/
structure Config where
  blockTime : Duration

/-- The fields of a router request that the client sets. -/
structure RouterRequest where
  cltvLimit : Option ℕ
  feeLimitMsat : Option UInt64
  paymentRequest : Option Bytes
deriving DecidableEq

/-- The body that is sent for a payment.  With a block time under a second the division
panics. -/
def Config.payBody (self : Config) (req : PayRequest) : Option RouterRequest :=
  if self.blockTime.asSecs = 0 then none
  else some {
    cltvLimit := some (req.relativeTimeout.asSecs / self.blockTime.asSecs)
    feeLimitMsat := some req.feeLimit
    paymentRequest := some req.invoice.text }

/-- The longest time lock of a route, in blocks: a limit of zero is none, and the node's own
maximum applies. -/
def RouterRequest.maxTimeLock (self : RouterRequest) (nodeMax : ℕ) : ℕ :=
  match self.cltvLimit with
  | none | some 0 => nodeMax
  | some (n + 1) => n + 1

/-- The time that a number of blocks takes, in nanoseconds. -/
def Config.blocksNanos (self : Config) (blocks : ℕ) : ℕ := blocks * self.blockTime.nanos

/-! ### When the time lock is short enough -/

section TimeLock

variable {self : Config} {spare : ℕ}

/-- A number of blocks fits into a time when the parts of a second do. -/
lemma Config.blocksNanos_le_iff :
    self.blocksNanos (spare / 10 ^ 9 / self.blockTime.asSecs) ≤ spare ↔
      spare / 10 ^ 9 / self.blockTime.asSecs * self.blockTime.subsecNanos ≤
        spare / 10 ^ 9 % self.blockTime.asSecs * 10 ^ 9 + spare % 10 ^ 9 := by
  have hblock : self.blockTime.nanos =
      self.blockTime.asSecs * 10 ^ 9 + self.blockTime.subsecNanos :=
    (Nat.div_add_mod' _ _).symm
  have hspare : spare = spare / 10 ^ 9 * 10 ^ 9 + spare % 10 ^ 9 := (Nat.div_add_mod' _ _).symm
  have hsecs := Nat.div_add_mod' (spare / 10 ^ 9) self.blockTime.asSecs
  generalize self.blockTime.asSecs = b at *
  generalize spare / 10 ^ 9 = s at *
  generalize spare % 10 ^ 9 = r at *
  have hmul : s / b * (b * 10 ^ 9) = s / b * b * 10 ^ 9 := (Nat.mul_assoc _ _ _).symm
  rw [blocksNanos, hblock, Nat.mul_add, hmul, hspare]
  generalize s / b * b = m at *
  generalize s / b * self.blockTime.subsecNanos = f at *
  omega

/-- Whatever the node's own maximum, the time lock fits into the time that the request was
made for: just when there is a limit at all, and the parts of a second fit. -/
theorem Config.maxTimeLock_le_iff {request : RouterRequest}
    (hlimit : request.cltvLimit = some (spare / 10 ^ 9 / self.blockTime.asSecs))
    (hblock : 0 < self.blockTime.asSecs) :
    (∀ nodeMax, self.blocksNanos (request.maxTimeLock nodeMax) ≤ spare) ↔
      self.blockTime.asSecs ≤ spare / 10 ^ 9 ∧
        spare / 10 ^ 9 / self.blockTime.asSecs * self.blockTime.subsecNanos ≤
          spare / 10 ^ 9 % self.blockTime.asSecs * 10 ^ 9 + spare % 10 ^ 9 := by
  rw [← blocksNanos_le_iff, ← Nat.div_pos_iff.trans (and_iff_right hblock)]
  rcases hn : spare / 10 ^ 9 / self.blockTime.asSecs with _ | n
  · -- no limit: a node with a large maximum takes longer
    refine iff_of_false (fun h => ?_) (fun h => absurd h.1 (lt_irrefl 0))
    have hle := h (spare + 1)
    have hpos : 1 ≤ self.blockTime.nanos :=
      Nat.pos_of_ne_zero fun h0 => by simp [Duration.asSecs, h0] at hblock
    simp only [RouterRequest.maxTimeLock, hlimit, hn, blocksNanos] at hle
    have := Nat.mul_le_mul_left (spare + 1) hpos
    omega
  · have hmax : ∀ nodeMax, request.maxTimeLock nodeMax = n + 1 := fun nodeMax => by
      simp only [RouterRequest.maxTimeLock, hlimit, hn]
    simp [hmax]

end TimeLock

end Konduit.Bln
