import Konduit.Data.Duration
import Konduit.Kernel.Lifecycle

/-!
# Time in slots

A transaction is valid between two slots.  From Shelley on a slot takes a second, in Byron it
took twenty; the validator is shown the times at which the slots begin, in milliseconds.
-/

namespace Konduit.Cardano

open Data

/-- The part of the protocol parameters that has to do with time. -/
structure ProtocolParameters where
  startTime : UInt64
  firstShelleySlot : UInt64

/-- The slot of a time. -/
def ProtocolParameters.posixToSlot (self : ProtocolParameters) (posix : Duration) : UInt64 :=
  let delta := UInt64.ofNat posix.asSecs - self.startTime
  let byronDuration := 20 * self.firstShelleySlot
  let sinceShelleyDuration := delta - byronDuration
  self.firstShelleySlot + sinceShelleyDuration

/-- The time is not before the first Shelley slot. -/
def ProtocolParameters.Admits (self : ProtocolParameters) (posix : Duration) : Prop :=
  self.startTime.toNat + 20 * self.firstShelleySlot.toNat ≤ posix.asSecs

/-- How slots and times correspond. -/
structure SlotConfig where
  slotLength : UInt64
  zeroSlot : UInt64
  zeroTime : UInt64

/-- The slots since the first Shelley slot, of a second each. -/
def ProtocolParameters.slotConfig (self : ProtocolParameters) : SlotConfig where
  slotLength := 1000
  zeroSlot := self.firstShelleySlot
  zeroTime := (self.startTime + 20 * self.firstShelleySlot) * 1000

/-- The time at which a slot begins. -/
def SlotConfig.slotToPosix (self : SlotConfig) (slot : UInt64) : UInt64 :=
  self.zeroTime + (slot - self.zeroSlot) * self.slotLength

/-- A bound of a validity interval. -/
inductive SlotBound where
  | none
  | inclusive (slot : UInt64)
  | exclusive (slot : UInt64)

/-- The slot from which a transaction is valid, and the one from which it is not any more. -/
structure ValidityInterval where
  start : Option UInt64
  ttl : Option UInt64

/-- The lower bound of a transaction is inclusive, the upper bound exclusive. -/
def withValidityInterval (fromBound untilBound : SlotBound) : ValidityInterval where
  start :=
    match fromBound with
    | .none => none
    | .inclusive bound => some bound
    | .exclusive bound => some (bound + 1)
  ttl :=
    match untilBound with
    | .none => none
    | .inclusive bound => some (bound + 1)
    | .exclusive bound => some bound

/-- The bounds that the validator is shown. -/
def ValidityInterval.toKernel (self : ValidityInterval) (config : SlotConfig) : Kernel.Bounds where
  lower :=
    match self.start with
    | none => .negativeInfinity
    | some slot => .finite (config.slotToPosix slot).toNat
  upper :=
    match self.ttl with
    | none => .positiveInfinity
    | some slot => .finite (config.slotToPosix slot).toNat

/-- The begin of the slot of a time is the time in whole seconds: the start time and the
first Shelley slot cancel out, even where they wrap. -/
lemma slotToPosix_posixToSlot (params : ProtocolParameters) (posix : Duration) :
    params.slotConfig.slotToPosix (params.posixToSlot posix) =
      UInt64.ofNat posix.asSecs * 1000 := by
  simp only [ProtocolParameters.slotConfig, ProtocolParameters.posixToSlot,
    SlotConfig.slotToPosix]
  grind

/-- A whole number of milliseconds in 64 bits has its whole seconds in 64 bits. -/
lemma toNat_slotToPosix (params : ProtocolParameters) {posix : Duration}
    (h : posix.Canonical) :
    (params.slotConfig.slotToPosix (params.posixToSlot posix)).toNat = 1000 * posix.asSecs := by
  have hmillis := Duration.asMillis_lt_of_canonical h
  have hsecs : 1000 * posix.asSecs ≤ posix.asMillis := by
    rw [Duration.asSecs, Duration.asMillis]
    omega
  have hthousand : (1000 : UInt64).toNat = 1000 := rfl
  rw [slotToPosix_posixToSlot, UInt64.toNat_mul, UInt64.toNat_ofNat', hthousand]
  omega

end Konduit.Cardano
