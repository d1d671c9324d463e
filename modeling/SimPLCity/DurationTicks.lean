import SimPLCity.TimerArithmetic
import SimPLCity.UnitScaling

/-! Durations in ticks of a timer, on both targets. -/

namespace SimPLCity.DurationTicks
open LinuxTimer WordArithmetic TimerArithmetic

/-- The sum of both parts, saturated. -/
def addFraction (limit wholeTicks fractionalTicks : UInt64) : Accounted Tick := do
  let room ← sub limit wholeTicks
  if fractionalTicks > room then pure limit.toUInt32
  else do
    let ticks ← add wholeTicks fractionalTicks
    convert UInt64.toUInt32 ticks

/-- The ticks of a remainder below one second are rounded up. -/
def fractionalTicks (frequency remainder : UInt64) : Accounted UInt64 := do
  let product ← mul remainder frequency
  let sum ← add product nanosecondsPerSecond
  let numerator ← sub sum 1
  div numerator nanosecondsPerSecond

/-- For a positive duration and a frequency that is not zero. -/
def convertDuration (frequency : UInt64) (nanoseconds : Int64) : Accounted Tick := do
  let unsignedNanoseconds ← convert Int64.toUInt64 nanoseconds
  let seconds ← div unsignedNanoseconds nanosecondsPerSecond
  let remainder ← mod unsignedNanoseconds nanosecondsPerSecond
  let limit ← div maximumTick frequency
  if seconds > limit then pure maximumTick.toUInt32
  else do
    let wholeTicks ← mul seconds frequency
    let fraction ← fractionalTicks frequency remainder
    addFraction maximumTick wholeTicks fraction

def durationToTicks (frequency : UInt64) (nanoseconds : Int64) : Accounted Tick :=
  if nanoseconds ≤ 0 ∨ frequency = 0 then pure 0 else convertDuration frequency nanoseconds

/-- `Timer::durationToTicksUnlocked` of the simulation. -/
def linuxDurationToTicks (m : Timer) (duration : Int64) : Accounted Tick := do
  let frequency ← tickFrequencyHz m
  durationToTicks frequency duration

/-- The registers of the hardware timer and its input frequency. -/
structure HardwareTimer where
  timerInputHz : UInt32
  prescaler : Tick
  autoReload : Tick
  counter : Tick := 0
  stateVersion : UInt32 := 0
deriving DecidableEq, Repr

namespace HardwareTimer

def tickFrequencyHz (m : HardwareTimer) : Accounted UInt64 := prescaled m.timerInputHz m.prescaler

/-- `Timer::durationToTicksImpl` of the hardware. -/
def durationToTicksImpl (m : HardwareTimer) (duration : Int64) : Accounted Tick := do
  let frequency ← m.tickFrequencyHz
  durationToTicks frequency duration

def setAutoReload (m : HardwareTimer) (value : Tick) : HardwareTimer :=
  { m with autoReload := value, stateVersion := m.stateVersion + 1 }

/-- An update event starts the counter again. -/
def forceUpdateEvent (m : HardwareTimer) : HardwareTimer :=
  { m with counter := 0, stateVersion := m.stateVersion + 1 }

def setPeriodImpl (m : HardwareTimer) (duration : Int64) : HardwareTimer :=
  let ticks := (m.durationToTicksImpl duration).value
  (m.setAutoReload (if ticks = 0 then 0 else ticks - 1)).forceUpdateEvent

end HardwareTimer

/-- The number of ticks that have begun by the end of the duration. -/
def exactTicks (frequency : Nat) (nanoseconds : Int) : Nat :=
  (nanoseconds.toNat * frequency + 999999999) / 1000000000

/-- What a duration is converted to. -/
def ticksOf (frequency : Nat) (nanoseconds : Int) : Nat :=
  if nanoseconds ≤ 0 ∨ frequency = 0 then 0 else min (exactTicks frequency nanoseconds) (2 ^ 32 - 1)

theorem ceil_split (a f c : Nat) {k : Nat} (hk : 0 < k) :
    (a * f + c) / k = a / k * f + (a % k * f + c) / k := by
  have ha : a * f + c = k * (a / k * f) + (a % k * f + c) := by
    rw [← Nat.mul_assoc, ← Nat.add_assoc, ← Nat.add_mul, Nat.div_add_mod]
  rw [ha, Nat.mul_add_div hk]

theorem maximumTick_toNat : maximumTick.toNat = 2 ^ 32 - 1 := rfl

theorem addFraction_spec {whole fraction : UInt64} (hwhole : whole.toNat ≤ 2 ^ 32 - 1) :
    Yields (addFraction maximumTick whole fraction) fun ticks =>
      ticks.toNat = min (whole.toNat + fraction.toNat) (2 ^ 32 - 1) := by
  have hmaximum := maximumTick_toNat
  refine .bind (.sub (by omega)) fun room hroom => ?_
  split
  · rename_i hover
    rw [gt_iff_lt, UInt64.lt_iff_toNat_lt] at hover
    exact .pure (by rw [Nat.min_eq_right (by omega)]; rfl)
  · rename_i hfits
    rw [gt_iff_lt, UInt64.lt_iff_toNat_lt, Nat.not_lt] at hfits
    refine .bind (.add (by omega)) fun ticks hticks => ?_
    refine (Yields.narrow (by omega)).mono fun result hresult => ?_
    rw [Nat.min_eq_left (by omega), hresult, hticks]

theorem fractionalTicks_spec {frequency remainder : UInt64} (hf : frequency.toNat < 2 ^ 32)
    (hremainder : remainder.toNat < 1000000000) :
    Yields (fractionalTicks frequency remainder) fun ticks =>
      ticks.toNat = (remainder.toNat * frequency.toNat + 999999999) / 1000000000 := by
  have hlt : remainder.toNat * frequency.toNat < 1000000000 * 2 ^ 32 :=
    Nat.mul_lt_mul'' hremainder hf
  refine .bind (.mul (by omega)) fun product hproduct => ?_
  refine .bind (.add (by rw [Timer.nanosecondsPerSecond_toNat]; omega)) fun sum hsum => ?_
  rw [Timer.nanosecondsPerSecond_toNat] at hsum
  refine .bind (.sub (by rw [UInt64.toNat_one]; omega)) fun numerator hnumerator => ?_
  rw [UInt64.toNat_one] at hnumerator
  refine (Yields.div (by decide)).mono fun ticks hticks => ?_
  have hsame : remainder.toNat * frequency.toNat + 1000000000 - 1 =
      remainder.toNat * frequency.toNat + 999999999 := by omega
  rw [hticks, Timer.nanosecondsPerSecond_toNat, hnumerator, hsum, hproduct, hsame]

theorem convertDuration_spec {frequency : UInt64} {nanoseconds : Int64} (hn : 0 ≤ nanoseconds)
    (hf : 0 < frequency.toNat) (hf' : frequency.toNat < 2 ^ 32) :
    Yields (convertDuration frequency nanoseconds) fun ticks =>
      ticks.toNat = min (exactTicks frequency.toNat nanoseconds.toInt) (2 ^ 32 - 1) := by
  have hmaximum := maximumTick_toNat
  refine .bind (.unsigned hn) fun ns hns => ?_
  rw [← hns, exactTicks, Int.toNat_natCast, ceil_split _ _ _ (by decide)]
  refine .bind (.div (by decide)) fun seconds hseconds => ?_
  refine .bind (.mod (by decide)) fun remainder hremainder => ?_
  rw [Timer.nanosecondsPerSecond_toNat] at hseconds hremainder
  rw [← hseconds, ← hremainder]
  have hsmall : remainder.toNat < 1000000000 := hremainder ▸ Nat.mod_lt _ (by decide)
  refine .bind (.div hf) fun limit hlimit => ?_
  -- the seconds alone are too many
  have hmany : seconds > limit ↔ 2 ^ 32 - 1 < seconds.toNat * frequency.toNat := by
    rw [gt_iff_lt, UInt64.lt_iff_toNat_lt, hlimit, Nat.div_lt_iff_lt_mul hf, hmaximum]
  split
  · rename_i h
    rw [hmany] at h
    exact .pure (by rw [Nat.min_eq_right (by omega)]; rfl)
  · rename_i h
    rw [hmany, Nat.not_lt] at h
    refine .bind (.mul (by omega)) fun wholeTicks hwhole => ?_
    refine .bind (fractionalTicks_spec hf' hsmall) fun fraction hfraction => ?_
    rw [← hwhole, ← hfraction]
    exact addFraction_spec (by omega)

theorem durationToTicks_spec (frequency : UInt64) (nanoseconds : Int64)
    (hf : frequency.toNat < 2 ^ 32) :
    Yields (durationToTicks frequency nanoseconds) fun ticks =>
      ticks.toNat = ticksOf frequency.toNat nanoseconds.toInt := by
  have hsign : nanoseconds ≤ 0 ↔ nanoseconds.toInt ≤ 0 := Int64.le_iff_toInt_le
  have hzero : frequency = 0 ↔ frequency.toNat = 0 := UInt64.toNat_inj.symm
  unfold durationToTicks ticksOf
  by_cases h : nanoseconds ≤ 0 ∨ frequency = 0
  · have h' := h
    rw [hsign, hzero] at h'
    rw [if_pos h, if_pos h']
    exact .pure rfl
  · have h' := h
    rw [hsign, hzero] at h'
    rw [if_neg h, if_neg h']
    rw [not_or] at h'
    exact convertDuration_spec (Int64.le_iff_toInt_le.mpr (by rw [Int64.toInt_zero]; omega))
      (by omega) hf

theorem ticksOf_mono {frequency : Nat} {a b : Int} (h : a ≤ b) :
    ticksOf frequency a ≤ ticksOf frequency b := by
  have hexact : exactTicks frequency a ≤ exactTicks frequency b := by
    refine Nat.div_le_div_right (Nat.add_le_add_right (Nat.mul_le_mul_right _ ?_) _)
    exact Int.toNat_le_toNat h
  unfold ticksOf
  split
  · exact Nat.zero_le _
  · rw [if_neg (by omega)]
    omega

theorem period_lasts {frequency : Nat} {nanoseconds : Int}
    (h : exactTicks frequency nanoseconds ≤ 2 ^ 32 - 1) :
    nanoseconds * frequency ≤ ((ticksOf frequency nanoseconds - 1 + 1 : Nat) : Int) * 1000000000 := by
  unfold ticksOf
  split
  · rename_i hnone
    rcases hnone with hneg | hzero
    · have : nanoseconds * frequency ≤ 0 := Int.mul_nonpos_of_nonpos_of_nonneg hneg (by omega)
      omega
    · subst hzero
      omega
  · rename_i hsome
    obtain ⟨n, rfl⟩ : ∃ n : Nat, nanoseconds = n := Int.eq_ofNat_of_zero_le (by omega)
    rw [Nat.min_eq_left h]
    unfold exactTicks
    rw [Int.toNat_natCast]
    have hceil := Nat.div_add_mod (n * frequency + 999999999) 1000000000
    have hrest := Nat.mod_lt (n * frequency + 999999999) (show 0 < 1000000000 by decide)
    have hle : n * frequency ≤ ((n * frequency + 999999999) / 1000000000 - 1 + 1) * 1000000000 := by
      omega
    exact_mod_cast hle

/-- A conversion at a frequency is exact and in the order of the durations. -/
structure Converts (conversion : Int64 → Accounted Tick) (frequency : Nat) : Prop where
  exact : ∀ duration, Yields (conversion duration) fun ticks =>
    ticks.toNat = ticksOf frequency duration.toInt
  mono : ∀ a b, a ≤ b → (conversion a).value ≤ (conversion b).value

theorem converts_durationToTicks {conversion : Int64 → Accounted Tick} {frequency : Nat}
    (hfrequency : frequency < 2 ^ 32) {x : Accounted UInt64}
    (hx : Yields x fun f => f.toNat = frequency)
    (h : ∀ duration, conversion duration = x >>= fun f => durationToTicks f duration) :
    Converts conversion frequency := by
  have hexact : ∀ duration, Yields (conversion duration) fun ticks =>
      ticks.toNat = ticksOf frequency duration.toInt := by
    intro duration
    rw [h]
    refine .bind hx fun f hf => ?_
    rw [← hf] at hfrequency ⊢
    exact durationToTicks_spec f duration hfrequency
  refine ⟨hexact, fun a b hab => ?_⟩
  rw [UInt32.le_iff_toNat_le, (hexact a).1, (hexact b).1]
  exact ticksOf_mono (Int64.le_iff_toInt_le.mp hab)

/-- After the period has been set it lasts at least as long as the duration, unless the conversion
has saturated. -/
def Lasts (autoReload : Tick) (frequency : Nat) (duration : Int64) : Prop :=
  exactTicks frequency duration.toInt ≤ 2 ^ 32 - 1 →
    duration.toInt * frequency ≤ ((autoReload.toNat + 1 : Nat) : Int) * 1000000000

theorem lasts_of_ticks {ticks : Tick} {frequency : Nat} {duration : Int64}
    (h : ticks.toNat = ticksOf frequency duration.toInt) :
    Lasts (if ticks = 0 then 0 else ticks - 1) frequency duration := by
  intro hfits
  have hlasts := period_lasts hfits
  rw [← h] at hlasts
  have hreload : (if ticks = 0 then 0 else ticks - 1 : Tick).toNat = ticks.toNat - 1 := by
    split
    · rename_i hzero
      rw [hzero]
      rfl
    · rename_i hnonzero
      have hpos : ticks.toNat ≠ 0 := fun h0 => hnonzero (UInt32.toNat_inj.mp h0)
      have hone : (1 : UInt32).toNat ≤ ticks.toNat := Nat.one_le_iff_ne_zero.mpr hpos
      rw [UInt32.toNat_sub_of_le _ _ (UInt32.le_iff_toNat_le.mpr hone)]
      rfl
  rwa [hreload]

/-! The values that the operations have. -/

theorem addFraction_value (limit whole fraction : UInt64) :
    (addFraction limit whole fraction).value =
      if fraction > limit - whole then limit.toUInt32 else (whole + fraction).toUInt32 := by
  refine (value_bind (sub_value ..)).trans ?_
  by_cases h : fraction > limit - whole
  · rw [if_pos h, if_pos h, pure_value]
  · rw [if_neg h, if_neg h]
    exact (value_bind (add_value ..)).trans (convert_value ..)

theorem fractionalTicks_value (frequency remainder : UInt64) :
    (fractionalTicks frequency remainder).value =
      (remainder * frequency + nanosecondsPerSecond - 1) / nanosecondsPerSecond := rfl

theorem convertDuration_value (frequency : UInt64) (duration : Int64) :
    (convertDuration frequency duration).value =
      if duration.toUInt64 / nanosecondsPerSecond > maximumTick / frequency then
        maximumTick.toUInt32
      else (addFraction maximumTick (duration.toUInt64 / nanosecondsPerSecond * frequency)
        (fractionalTicks frequency (duration.toUInt64 % nanosecondsPerSecond)).value).value := by
  refine (value_bind (convert_value ..)).trans ((value_bind (div_value ..)).trans ?_)
  refine (value_bind (mod_value ..)).trans ((value_bind (div_value ..)).trans ?_)
  by_cases hmany : duration.toUInt64 / nanosecondsPerSecond > maximumTick / frequency
  · rw [if_pos hmany, if_pos hmany, pure_value]
  · rw [if_neg hmany, if_neg hmany]
    exact (value_bind (mul_value ..)).trans (value_bind rfl)

theorem linuxDurationToTicks_value (m : Timer) (duration : Int64) :
    (linuxDurationToTicks m duration).value = m.durationToTicks duration := by
  have hsteps : (linuxDurationToTicks m duration).value =
      (durationToTicks m.tickFrequencyHz.toUInt64 duration).value :=
    value_bind (tickFrequencyHz_value m)
  rw [hsteps]
  unfold durationToTicks Timer.durationToTicks
  dsimp only
  by_cases hnone : duration ≤ 0 ∨ m.tickFrequencyHz.toUInt64 = 0
  · rw [if_pos hnone, if_pos hnone, pure_value]
  · rw [if_neg hnone, if_neg hnone, convertDuration_value, addFraction_value,
      fractionalTicks_value]

theorem durations_convert (m : Timer) (hardware : HardwareTimer) :
    Converts (linuxDurationToTicks m) (frequency m) ∧
      Converts hardware.durationToTicksImpl
        (hardware.timerInputHz.toNat / (hardware.prescaler.toNat + 1)) ∧
      ∀ duration now, Lasts (m.setPeriod duration now).autoReload (frequency m) duration ∧
        Lasts (hardware.setPeriodImpl duration).autoReload
          (hardware.timerInputHz.toNat / (hardware.prescaler.toNat + 1)) duration := by
  have hlinux : Converts (linuxDurationToTicks m) (frequency m) :=
    converts_durationToTicks frequency_lt (tickFrequencyHz_spec m) fun _ => rfl
  have hhardware : Converts hardware.durationToTicksImpl
      (hardware.timerInputHz.toNat / (hardware.prescaler.toNat + 1)) :=
    converts_durationToTicks
      (Nat.lt_of_le_of_lt (Nat.div_le_self ..) hardware.timerInputHz.toNat_lt)
      (prescaled_spec hardware.timerInputHz hardware.prescaler) fun _ => rfl
  refine ⟨hlinux, hhardware, fun duration now => ⟨?_, lasts_of_ticks (hhardware.exact duration).1⟩⟩
  have hticks := (hlinux.exact duration).1
  rw [linuxDurationToTicks_value] at hticks
  exact lasts_of_ticks hticks

end SimPLCity.DurationTicks
