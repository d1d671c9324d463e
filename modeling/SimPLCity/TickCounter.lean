import SimPLCity.Runs
import SimPLCity.SleepFor
import SimPLCity.UnitScaling
import Mathlib.Data.List.Chain

/-! The 64-bit tick counter that is kept from samples of ThreadX's 32-bit one, and the steady clock
in nanoseconds. A call of `steady_ticks` runs with interrupts disabled and is one step. -/

namespace SimPLCity.TickCounter
open WordArithmetic UnitScaling
open SleepFor (nanosecondsPerSecond ticksPerSecond nanosecondsPerSecond_toNat ticksPerSecond_toNat)

structure Counter where
  tickEpoch : UInt64
  lastTick : UInt32
deriving DecidableEq, Repr

/-- The new epoch and previous tick, and the result. -/
def extendTickCounter (s : Counter) (current : UInt32) : Counter × UInt64 :=
  let epoch := if current < s.lastTick then s.tickEpoch + 0x100000000 else s.tickEpoch
  (⟨epoch, current⟩, epoch ||| current.toUInt64)

/-- `tx_time_get` returns the low half of the true tick count. -/
def steadyTicks (s : Counter) (time : UInt64) : Counter × UInt64 :=
  extendTickCounter s time.toUInt32

def ticksToNanoseconds (ticks : UInt64) : Accounted Int64 := do
  let nanoseconds ← scaleSigned ticksPerSecond nanosecondsPerSecond ticks
  pure (nanoseconds.getD Int64.maxValue)

def steadyTimeNanoseconds (s : Counter) (time : UInt64) : Counter × Accounted Int64 :=
  ((steadyTicks s time).1, ticksToNanoseconds (steadyTicks s time).2)

theorem ticksToNanoseconds_spec (ticks : UInt64) :
    Yields (ticksToNanoseconds ticks) fun nanoseconds =>
      nanoseconds.toInt = (min (ticks.toNat * 10 ^ 6) (2 ^ 63 - 1) : Nat) := by
  refine .bind (scaleSigned_spec ticks (by decide) (by decide) (by decide) (by decide))
    fun nanoseconds h => .pure ?_
  rw [ticksPerSecond_toNat, nanosecondsPerSecond_toNat, scaled] at h
  have hmillion : ticks.toNat * 10 ^ 9 / 1000 = ticks.toNat * 10 ^ 6 := by omega
  rw [hmillion] at h
  split at h
  · obtain ⟨n, rfl, hn⟩ := Option.map_eq_some_iff.mp h
    rw [Option.getD_some, hn]
    omega
  · obtain rfl := Option.map_eq_none_iff.mp h
    rw [Option.getD_none, Int64.toInt_maxValue]
    omega

theorem ticksToNanoseconds_mono {a b : UInt64} (h : a ≤ b) :
    (ticksToNanoseconds a).value ≤ (ticksToNanoseconds b).value := by
  rw [Int64.le_iff_toInt_le, (ticksToNanoseconds_spec a).1, (ticksToNanoseconds_spec b).1]
  rw [UInt64.le_iff_toNat_le] at h
  omega

/-- The epoch is that of the last sample. -/
structure Follows (first time : UInt64) (s : Counter) : Prop where
  after : first.toNat ≤ time.toNat
  epoch : s.tickEpoch.toNat = (time.toNat / 2 ^ 32 - first.toNat / 2 ^ 32) * 2 ^ 32
  last : s.lastTick.toNat = time.toNat % 2 ^ 32

section
variable {first time next : UInt64} {s : Counter}

end

def step (s : Counter) (time : UInt64) : Counter := (steadyTicks s time).1

def ticks (s : Counter) (time : UInt64) : UInt64 := (steadyTicks s time).2

def nanoseconds (s : Counter) (time : UInt64) : Int64 := (steadyTimeNanoseconds s time).2.value

end SimPLCity.TickCounter
