import SimPLCity.SleepFor
import SimPLCity.UnitScaling
import Mathlib.Tactic.Ring

/-! High-resolution time: a counter with a modulus is extended to a count of all ticks since an
epoch, by means of ThreadX's coarse clock. -/

namespace SimPLCity.HighResolutionTime
open WordArithmetic UnitScaling
open SleepFor (nanosecondsPerSecond ticksPerSecond nanosecondsPerSecond_toNat ticksPerSecond_toNat)

structure HighResolutionCounter where
  ticks : UInt64 := 0
  ticksPerSecond : UInt64 := 0
  modulus : UInt64 := 0
  stateVersion : UInt32 := 0
deriving DecidableEq, Repr

/-- What the calls on the timer return, in the order in which they are made. -/
structure TimerReads where
  stateVersion : UInt32
  isRunning : Bool
  counter : UInt32
  tickFrequencyHz : UInt32
  autoReload : UInt32
  isStillRunning : Bool
  laterStateVersion : UInt32
deriving DecidableEq, Repr

/-- What `initialize` has left. -/
structure Clock where
  counterAvailable : Bool
  counterEpoch : HighResolutionCounter
  epochTicks : UInt64
deriving DecidableEq, Repr

def validHighResolutionCounter (counter : HighResolutionCounter) : Bool :=
  counter.ticksPerSecond ≠ 0 && counter.ticksPerSecond ≤ nanosecondsPerSecond &&
    (counter.modulus = 0 || counter.ticks < counter.modulus)

def readHighResolutionCounter (timer : Option TimerReads) : Option HighResolutionCounter := do
  let timer ← timer
  if !timer.isRunning then none
  else
    let counter : HighResolutionCounter :=
      { ticks := timer.counter.toUInt64
        ticksPerSecond := timer.tickFrequencyHz.toUInt64
        modulus := timer.autoReload.toUInt64 + 1
        stateVersion := timer.stateVersion }
    if timer.isStillRunning && timer.laterStateVersion = timer.stateVersion &&
        validHighResolutionCounter counter then some counter
    else none

def threadTicksToCounterTicks (ticks frequency : UInt64) : Accounted (Option UInt64) :=
  scale unsignedMaximum ticksPerSecond frequency ticks

def counterTicksToNanoseconds (ticks frequency : UInt64) : Accounted (Option Int64) :=
  scaleSigned frequency nanosecondsPerSecond ticks

/-- The number of wraps, where the two clocks can be brought together. -/
def countWraps (modulus modularElapsed coarseElapsed : UInt64) : Accounted (Option UInt64) :=
  if coarseElapsed ≥ modularElapsed then do
    let difference ← sub coarseElapsed modularElapsed
    let wraps := difference / modulus
    let remainder := difference % modulus
    let rest ← sub modulus remainder
    if remainder ≥ rest then do
      let wraps ← add wraps 1
      pure (some wraps)
    else pure (some wraps)
  else do
    let behind ← sub modularElapsed coarseElapsed
    -- a reset or stopped timer can look like a wrap
    if behind > modulus / 2 then pure none else pure (some 0)

/-- The ticks since the epoch, modulo `modulus`. -/
def modularElapsed (modulus epoch current : UInt64) : Accounted UInt64 :=
  if current ≥ epoch then sub current epoch
  else do
    let untilWrap ← sub modulus epoch
    add untilWrap current

/-- The ticks since the epoch, from the counter modulo `modulus` and the coarse clock. -/
def wrappedElapsed (modulus epoch current coarseElapsed : UInt64) : Accounted (Option UInt64) := do
  let modularElapsed ← modularElapsed modulus epoch current
  match ← countWraps modulus modularElapsed coarseElapsed with
  | none => pure none
  | some wraps => do
    let room ← sub unsignedMaximum modularElapsed
    if wraps > room / modulus then pure none
    else do
      let wrapped ← mul wraps modulus
      let elapsed ← add modularElapsed wrapped
      pure (some elapsed)

/-- The coarse clock may not be convertible. -/
def coarselyElapsed (clock : Clock) (current : HighResolutionCounter) :
    Option UInt64 → Accounted (Option UInt64)
  | none => pure none
  | some coarseElapsed =>
    wrappedElapsed current.modulus clock.counterEpoch.ticks current.ticks coarseElapsed

def elapsedCounterTicks (clock : Clock) (current : HighResolutionCounter)
    (currentThreadTicks : UInt64) : Accounted (Option UInt64) :=
  if current.modulus = 0 then
    if current.ticks < clock.counterEpoch.ticks then pure none
    else do
      let elapsed ← sub current.ticks clock.counterEpoch.ticks
      pure (some elapsed)
  else do
    let threadTicks ← sub currentThreadTicks clock.epochTicks
    let coarseElapsed ← threadTicksToCounterTicks threadTicks current.ticksPerSecond
    coarselyElapsed clock current coarseElapsed

/-- The nanoseconds of so many ticks of the counter. -/
def elapsedNanoseconds (current : HighResolutionCounter) :
    Option UInt64 → Accounted (Option Int64)
  | none => pure none
  | some elapsed => counterTicksToNanoseconds elapsed current.ticksPerSecond

/-- The clock afterwards and the nanoseconds since the epoch, where they are known. -/
def highResolutionElapsedNanoseconds (clock : Clock) (timer : Option TimerReads)
    (currentThreadTicks : UInt64) : Clock × Accounted (Option Int64) :=
  if !clock.counterAvailable then (clock, pure none)
  else
    match readHighResolutionCounter timer with
    | none => ({ clock with counterAvailable := false }, pure none)
    | some current =>
      if current.stateVersion ≠ clock.counterEpoch.stateVersion ||
          current.ticksPerSecond ≠ clock.counterEpoch.ticksPerSecond ||
          current.modulus ≠ clock.counterEpoch.modulus then
        ({ clock with counterAvailable := false }, pure none)
      else (clock, do
        let elapsed ← elapsedCounterTicks clock current currentThreadTicks
        elapsedNanoseconds current elapsed)

section
variable {modulus epoch current coarse : UInt64} {elapsed : Nat}

/-- The coarse clock is off by less than half of the modulus. -/
structure Corroborates (modulus coarse elapsed : Nat) : Prop where
  above : 2 * coarse < 2 * elapsed + modulus
  below : 2 * elapsed < 2 * coarse + modulus

theorem countWraps_spec {modular : UInt64} (hmodulus : 0 < modulus.toNat)
    (hmodular : modular.toNat = elapsed % modulus.toNat)
    (hclose : Corroborates modulus.toNat coarse.toNat elapsed) :
    Yields (countWraps modulus modular coarse) fun wraps =>
      wraps.map UInt64.toNat = some (elapsed / modulus.toNat) := by
  obtain ⟨habove, hbelow⟩ := hclose
  have hsplit := Nat.div_add_mod elapsed modulus.toNat
  have hlt := Nat.mod_lt elapsed hmodulus
  have hbound := coarse.toNat_lt
  have hmodulusBound := modulus.toNat_lt
  rw [← hmodular] at hsplit hlt
  generalize hq : elapsed / modulus.toNat = q at hsplit ⊢
  unfold countWraps
  split
  · rename_i hge
    rw [ge_iff_le, UInt64.le_iff_toNat_le] at hge
    refine .bind (.sub hge) fun difference hdifference => ?_
    have hdiv : (difference / modulus).toNat = difference.toNat / modulus.toNat :=
      UInt64.toNat_div ..
    have hmod : (difference % modulus).toNat = difference.toNat % modulus.toNat :=
      UInt64.toNat_mod ..
    have hmodlt := Nat.mod_lt difference.toNat hmodulus
    refine .bind (.sub (by omega)) fun rest hrest => ?_
    have hround : difference % modulus ≥ rest ↔
        modulus.toNat ≤ 2 * (difference.toNat % modulus.toNat) := by
      rw [ge_iff_le, UInt64.le_iff_toNat_le, hrest, hmod]
      omega
    rcases Nat.lt_or_ge coarse.toNat elapsed with hbehind | hahead
    · -- the coarse clock is behind: the last wrap is rounded up
      obtain ⟨k, rfl⟩ : ∃ k, q = k + 1 := by
        refine Nat.exists_eq_succ_of_ne_zero fun h0 => ?_
        rw [h0] at hsplit
        omega
      rw [Nat.mul_succ] at hsplit
      obtain ⟨hquotient, hremainder⟩ := (Nat.div_mod_unique hmodulus (a := difference.toNat)
        (c := modulus.toNat - (elapsed - coarse.toNat)) (d := k)).mpr ⟨by omega, by omega⟩
      rw [if_pos (hround.mpr (by omega))]
      refine .bind (.add ?_) fun wraps hwraps => .pure ?_
      · rw [hdiv, hquotient, UInt64.toNat_one]
        have hk : k ≤ modulus.toNat * k := Nat.le_mul_of_pos_left k hmodulus
        omega
      · rw [Option.map_some, hwraps, hdiv, hquotient, UInt64.toNat_one]
    · -- the coarse clock is ahead: the rest is rounded down
      obtain ⟨hquotient, hremainder⟩ := (Nat.div_mod_unique hmodulus (a := difference.toNat)
        (c := coarse.toNat - elapsed) (d := q)).mpr ⟨by omega, by omega⟩
      rw [if_neg (mt hround.mp (by omega))]
      exact .pure (by rw [Option.map_some, hdiv, hquotient])
  · rename_i hnot
    rw [ge_iff_le, UInt64.le_iff_toNat_le, Nat.not_le] at hnot
    -- there is no wrap to count, or the coarse clock would be ahead of the modular count
    obtain rfl : q = 0 := by
      by_contra hne
      obtain ⟨k, rfl⟩ := Nat.exists_eq_succ_of_ne_zero hne
      rw [Nat.mul_succ] at hsplit
      omega
    refine .bind (.sub (by omega)) fun behind hbehind => ?_
    have hhalf : (modulus / 2).toNat = modulus.toNat / 2 := UInt64.toNat_div ..
    have hsmall : ¬ behind > modulus / 2 := by
      rw [gt_iff_lt, UInt64.lt_iff_toNat_lt, hhalf]
      omega
    rw [if_neg hsmall]
    exact .pure rfl

theorem modularElapsed_spec (hepoch : epoch.toNat < modulus.toNat)
    (hcurrent : current.toNat = (epoch.toNat + elapsed) % modulus.toNat) :
    Yields (modularElapsed modulus epoch current) fun ticks =>
      ticks.toNat = elapsed % modulus.toNat := by
  have hpos : 0 < modulus.toNat := by omega
  have hlt := Nat.mod_lt elapsed hpos
  have hbound := modulus.toNat_lt
  rw [Nat.add_mod, Nat.mod_eq_of_lt hepoch] at hcurrent
  generalize elapsed % modulus.toNat = r at hcurrent hlt ⊢
  unfold modularElapsed
  rcases Nat.lt_or_ge (epoch.toNat + r) modulus.toNat with hsmall | hlarge
  · rw [Nat.mod_eq_of_lt hsmall] at hcurrent
    rw [if_pos (by rw [ge_iff_le, UInt64.le_iff_toNat_le]; omega)]
    exact (Yields.sub (by omega)).mono fun _ h => by omega
  · rw [Nat.mod_eq_sub_mod hlarge, Nat.mod_eq_of_lt (by omega)] at hcurrent
    rw [if_neg (by rw [ge_iff_le, UInt64.le_iff_toNat_le]; omega)]
    refine .bind (.sub (by omega)) fun untilWrap huntil => ?_
    exact (Yields.add (by omega)).mono fun _ h => by omega

theorem wrappedElapsed_spec (hepoch : epoch.toNat < modulus.toNat)
    (hcurrent : current.toNat = (epoch.toNat + elapsed) % modulus.toNat)
    (hclose : Corroborates modulus.toNat coarse.toNat elapsed) (hfits : elapsed < 2 ^ 64) :
    Yields (wrappedElapsed modulus epoch current coarse) fun ticks =>
      ticks.map UInt64.toNat = some elapsed := by
  have hpos : 0 < modulus.toNat := by omega
  have hsplit := Nat.div_add_mod elapsed modulus.toNat
  have hlt := Nat.mod_lt elapsed hpos
  refine .bind (modularElapsed_spec hepoch hcurrent) fun modular hmodular => ?_
  refine .bind (countWraps_spec hpos hmodular hclose) fun wraps hwraps => ?_
  obtain ⟨n, rfl, hn⟩ := Option.map_eq_some_iff.mp hwraps
  have hmaximum := unsignedMaximum_toNat
  have hmodularBound := modular.toNat_lt
  refine .bind (.sub (by omega)) fun room hroom => ?_
  have hroomy : ¬ n > room / modulus := by
    rw [gt_iff_lt, UInt64.lt_iff_toNat_lt, UInt64.toNat_div, Nat.not_lt, hn,
      Nat.le_div_iff_mul_le hpos, Nat.mul_comm]
    omega
  simp only [if_neg hroomy]
  have hproduct : n.toNat * modulus.toNat = elapsed - modular.toNat := by
    rw [hn, Nat.mul_comm]
    omega
  refine .bind (.mul (by omega)) fun wrapped hwrapped => ?_
  refine .bind (.add (by omega)) fun sum hsum => .pure ?_
  rw [Option.map_some, Option.some.injEq]
  omega

end

/-- The timer has run undisturbed since the epoch, for `elapsed` of its ticks. -/
structure Undisturbed (clock : Clock) (timer : TimerReads) (elapsed : Nat) : Prop where
  available : clock.counterAvailable = true
  running : timer.isRunning = true ∧ timer.isStillRunning = true
  stateVersion : timer.stateVersion = clock.counterEpoch.stateVersion ∧
    timer.laterStateVersion = clock.counterEpoch.stateVersion
  frequency : timer.tickFrequencyHz.toUInt64 = clock.counterEpoch.ticksPerSecond
  modulus : timer.autoReload.toUInt64 + 1 = clock.counterEpoch.modulus
  counter : timer.counter.toNat =
    (clock.counterEpoch.ticks.toNat + elapsed) % clock.counterEpoch.modulus.toNat

section
variable {clock : Clock} {timer : TimerReads} {elapsed : Nat}

theorem readHighResolutionCounter_undisturbed (h : Undisturbed clock timer elapsed)
    (hmodulus : 0 < clock.counterEpoch.modulus.toNat)
    (hfrequency : 1 ≤ clock.counterEpoch.ticksPerSecond.toNat ∧
      clock.counterEpoch.ticksPerSecond.toNat ≤ 10 ^ 9) :
    readHighResolutionCounter (some timer) =
      some { clock.counterEpoch with ticks := timer.counter.toUInt64 } := by
  have hticks : timer.counter.toUInt64 < clock.counterEpoch.modulus := by
    rw [UInt64.lt_iff_toNat_lt, UInt32.toNat_toUInt64, h.counter]
    exact Nat.mod_lt _ hmodulus
  have hnonzero : clock.counterEpoch.ticksPerSecond ≠ 0 := fun h0 => by
    rw [h0] at hfrequency
    exact absurd hfrequency.1 (by decide)
  have hle : clock.counterEpoch.ticksPerSecond ≤ nanosecondsPerSecond := by
    rw [UInt64.le_iff_toNat_le, nanosecondsPerSecond_toNat]
    exact hfrequency.2
  simp [readHighResolutionCounter, validHighResolutionCounter, h.running, h.stateVersion,
    h.frequency, h.modulus, hticks, hnonzero, hle]

theorem elapsed_lt {frequency : Nat} (hfrequency : 1 ≤ frequency ∧ frequency ≤ 10 ^ 9)
    (hfits : elapsed * 10 ^ 9 / frequency ≤ 2 ^ 63 - 1) : elapsed < 2 ^ 64 := by
  have hle : elapsed ≤ elapsed * 10 ^ 9 / frequency := by
    rw [Nat.le_div_iff_mul_le hfrequency.1]
    exact Nat.mul_le_mul_left elapsed hfrequency.2
  omega

theorem elapsedCounterTicks_wrapped (current : HighResolutionCounter) {now coarse : UInt64}
    (hmodulus : current.modulus ≠ 0)
    (hcoarse : (threadTicksToCounterTicks (now - clock.epochTicks) current.ticksPerSecond).value =
      some coarse) :
    (elapsedCounterTicks clock current now).value =
      (wrappedElapsed current.modulus clock.counterEpoch.ticks current.ticks coarse).value := by
  have hwhole : (elapsedCounterTicks clock current now).value =
      (coarselyElapsed clock current (some coarse)).value := by
    unfold elapsedCounterTicks
    rw [if_neg hmodulus]
    exact (value_bind (sub_value now clock.epochTicks)).trans (value_bind hcoarse)
  rw [hwhole, coarselyElapsed]

theorem counterTicksToNanoseconds_fits {ticks frequency : UInt64}
    (hfrequency : 1 ≤ frequency.toNat ∧ frequency.toNat ≤ 10 ^ 9)
    (hfits : ticks.toNat * 10 ^ 9 / frequency.toNat ≤ 2 ^ 63 - 1) :
    (counterTicksToNanoseconds ticks frequency).value.map Int64.toInt =
      some ((ticks.toNat * 10 ^ 9 / frequency.toNat : Nat) : Int) := by
  have hscaled := (@scaleSigned_spec frequency nanosecondsPerSecond ticks hfrequency.1 (by decide)
    (by rw [nanosecondsPerSecond_toNat]; omega) (by decide)).1
  rw [nanosecondsPerSecond_toNat, scaled, if_pos hfits, Option.map_some] at hscaled
  exact hscaled

theorem elapsed_reconstructed (h : Undisturbed clock timer elapsed) (now coarse : UInt64)
    (hmodulus : 2 ≤ clock.counterEpoch.modulus.toNat)
    (hfrequency : 1 ≤ clock.counterEpoch.ticksPerSecond.toNat ∧
      clock.counterEpoch.ticksPerSecond.toNat ≤ 10 ^ 9)
    (hepoch : clock.counterEpoch.ticks.toNat < clock.counterEpoch.modulus.toNat)
    (hcoarse : (threadTicksToCounterTicks (now - clock.epochTicks)
      clock.counterEpoch.ticksPerSecond).value = some coarse)
    (hclose : 2 * |(coarse.toNat : Int) - elapsed| < clock.counterEpoch.modulus.toNat)
    (hfits : elapsed * 10 ^ 9 / clock.counterEpoch.ticksPerSecond.toNat ≤ 2 ^ 63 - 1) :
    (elapsedCounterTicks clock { clock.counterEpoch with ticks := timer.counter.toUInt64 }
        now).value.map UInt64.toNat = some elapsed ∧
      (highResolutionElapsedNanoseconds clock (some timer) now).1 = clock ∧
      (highResolutionElapsedNanoseconds clock (some timer) now).2.value.map Int64.toInt =
        some ((elapsed * 10 ^ 9 / clock.counterEpoch.ticksPerSecond.toNat : Nat) : Int) := by
  have hread := readHighResolutionCounter_undisturbed h (by omega) hfrequency
  have hnonzero : clock.counterEpoch.modulus ≠ 0 := fun h0 => by
    rw [h0] at hmodulus
    exact absurd hmodulus (by decide)
  have hcounter : timer.counter.toUInt64.toNat =
      (clock.counterEpoch.ticks.toNat + elapsed) % clock.counterEpoch.modulus.toNat := by
    rw [UInt32.toNat_toUInt64, h.counter]
  have hcorroborates : Corroborates clock.counterEpoch.modulus.toNat coarse.toNat elapsed := by
    rcases abs_cases ((coarse.toNat : Int) - elapsed) with ⟨heq, _⟩ | ⟨heq, _⟩ <;>
      rw [heq] at hclose <;> constructor <;> omega
  have hticks : (elapsedCounterTicks clock
      { clock.counterEpoch with ticks := timer.counter.toUInt64 } now).value.map UInt64.toNat =
      some elapsed := by
    have hwrapped := elapsedCounterTicks_wrapped
      { clock.counterEpoch with ticks := timer.counter.toUInt64 } hnonzero hcoarse
    rw [hwrapped]
    exact (wrappedElapsed_spec hepoch hcounter hcorroborates (elapsed_lt hfrequency hfits)).1
  obtain ⟨ticks, hsome, rfl⟩ := Option.map_eq_some_iff.mp hticks
  refine ⟨hticks, ?_, ?_⟩
  · simp [highResolutionElapsedNanoseconds, h.available, hread]
  · simp only [highResolutionElapsedNanoseconds, h.available, hread, Bool.not_true,
      Bool.false_eq_true, if_false, ne_eq, not_true_eq_false, decide_false, Bool.or_self]
    rw [bind_value, hsome, elapsedNanoseconds]
    exact counterTicksToNanoseconds_fits hfrequency hfits

/-- A counter of 16 bits at a megahertz that has wrapped once more than the coarse clock has seen. -/
theorem elapsed_reconstructed_behind :
    (highResolutionElapsedNanoseconds ⟨true, ⟨60000, 1000000, 65536, 3⟩, 100⟩
        (some ⟨3, true, 10, 1000000, 65535, true, 3⟩) 105).2.value.map Int64.toInt =
      some 5546000 := by
  have hcoarse : (threadTicksToCounterTicks (105 - 100) 1000000).value = some 5000 := by
    decide +kernel
  have hcounter : (10 : UInt32).toNat = ((60000 : UInt64).toNat + 5546) % (65536 : UInt64).toNat :=
    rfl
  have hundisturbed : Undisturbed ⟨true, ⟨60000, 1000000, 65536, 3⟩, 100⟩
      ⟨3, true, 10, 1000000, 65535, true, 3⟩ 5546 :=
    ⟨rfl, ⟨rfl, rfl⟩, ⟨rfl, rfl⟩, by decide, by decide, hcounter⟩
  exact (elapsed_reconstructed hundisturbed 105 5000 (by decide) (by decide) (by decide) hcoarse
    (by decide) (by decide)).2.2

end

end SimPLCity.HighResolutionTime
