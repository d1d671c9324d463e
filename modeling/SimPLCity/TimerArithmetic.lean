import SimPLCity.LinuxTimer
import SimPLCity.WordArithmetic

/-! The computations of the simulated timer, operation by operation. -/

namespace SimPLCity.TimerArithmetic
open LinuxTimer WordArithmetic

/-- The input frequency is divided by the prescaler plus one. -/
def prescaled (timerInputHz : UInt32) (prescaler : Tick) : Accounted UInt64 := do
  let divisor ← add prescaler.toUInt64 1
  let quotient ← div timerInputHz.toUInt64 divisor
  let frequency ← convert UInt64.toUInt32 quotient
  convert UInt32.toUInt64 frequency

def tickFrequencyHz (m : Timer) : Accounted UInt64 := prescaled m.timerInputHz m.prescaler

/-- `counterAt` for a frequency that is not zero. -/
def countedAt (m : Timer) (period frequency now : UInt64) : Accounted Tick := do
  let elapsedNanoseconds ← sub now m.startedAtNanoseconds
  let seconds ← div elapsedNanoseconds nanosecondsPerSecond
  let remainder ← mod elapsedNanoseconds nanosecondsPerSecond
  let secondsRest ← mod seconds period
  let frequencyRest ← mod frequency period
  let wholeProduct ← mul secondsRest frequencyRest
  let wholeTicks ← mod wholeProduct period
  let fractionalProduct ← mul remainder frequency
  let fractionalQuotient ← div fractionalProduct nanosecondsPerSecond
  let fractionalTicks ← mod fractionalQuotient period
  let sum ← add wholeTicks fractionalTicks
  let elapsedTicks ← mod sum period
  let counter ← add m.counter.toUInt64 elapsedTicks
  let tick ← mod counter period
  convert UInt64.toUInt32 tick

def counterAt (m : Timer) (now : UInt64) : Accounted Tick := do
  let period ← add m.autoReload.toUInt64 1
  let frequency ← tickFrequencyHz m
  if frequency = 0 then pure m.counter else countedAt m period frequency now

theorem tickFrequencyHz_value (m : Timer) :
    (tickFrequencyHz m).value = m.tickFrequencyHz.toUInt64 := rfl

theorem counterAt_value (m : Timer) (now : UInt64) : (counterAt m now).value = m.counterAt now := by
  have hsteps : (counterAt m now).value = (if m.tickFrequencyHz.toUInt64 = 0 then pure m.counter
      else countedAt m (m.autoReload.toUInt64 + 1) m.tickFrequencyHz.toUInt64 now).value :=
    (value_bind (add_value ..)).trans (value_bind (tickFrequencyHz_value m))
  rw [hsteps]
  unfold Timer.counterAt
  dsimp only
  by_cases hzero : m.tickFrequencyHz.toUInt64 = 0
  · rw [if_pos hzero, if_pos hzero, pure_value]
  · rw [if_neg hzero, if_neg hzero]
    rfl

section
variable {m : Timer} {now : UInt64}

/-- The ticks in a second, from the configuration. -/
def frequency (m : Timer) : Nat := m.timerInputHz.toNat / (m.prescaler.toNat + 1)

theorem frequency_lt : frequency m < 2 ^ 32 :=
  Nat.lt_of_le_of_lt (Nat.div_le_self ..) m.timerInputHz.toNat_lt

theorem prescaled_spec (timerInputHz : UInt32) (prescaler : Tick) :
    Yields (prescaled timerInputHz prescaler) fun f =>
      f.toNat = timerInputHz.toNat / (prescaler.toNat + 1) := by
  have hprescaler := prescaler.toNat_lt
  have hlt : timerInputHz.toNat / (prescaler.toNat + 1) < 2 ^ 32 :=
    Nat.lt_of_le_of_lt (Nat.div_le_self ..) timerInputHz.toNat_lt
  refine .bind (.add ?_) fun divisor hdivisor => ?_
  · rw [UInt32.toNat_toUInt64, UInt64.toNat_one]
    omega
  rw [UInt32.toNat_toUInt64, UInt64.toNat_one] at hdivisor
  refine .bind (.div (by omega)) fun quotient hquotient => ?_
  rw [UInt32.toNat_toUInt64, hdivisor] at hquotient
  refine .bind (.narrow (by omega)) fun f hf => ?_
  have hwide : f.toUInt64.toNat = f.toNat := UInt32.toNat_toUInt64 _
  exact ⟨hwide.trans (hf.trans hquotient), convert_exact (by simp)⟩

theorem tickFrequencyHz_spec (m : Timer) :
    Yields (tickFrequencyHz m) fun f => f.toNat = frequency m :=
  prescaled_spec m.timerInputHz m.prescaler

theorem countedAt_spec {period frequency : UInt64} (hstarted : m.startedAtNanoseconds ≤ now)
    (hperiod : period.toNat = m.period) (hfrequency : frequency.toNat < 2 ^ 32) :
    Yields (countedAt m period frequency now) fun tick => tick.toNat = (m.counter.toNat +
      (now.toNat - m.startedAtNanoseconds.toNat) * frequency.toNat / 1000000000) % m.period := by
  have hp := m.period_pos
  have hp' := m.period_le
  have hc := m.counter.toNat_lt
  have hpos : 0 < period.toNat := hperiod ▸ hp
  refine .bind (.sub (UInt64.le_iff_toNat_le.mp hstarted)) fun elapsed helapsed => ?_
  rw [← helapsed, ← Timer.ticks_mod]
  refine .bind (.div (by decide)) fun seconds hseconds => ?_
  refine .bind (.mod (by decide)) fun remainder hremainder => ?_
  rw [Timer.nanosecondsPerSecond_toNat] at hseconds hremainder
  refine .bind (.mod hpos) fun secondsRest hsecondsRest => ?_
  refine .bind (.mod hpos) fun frequencyRest hfrequencyRest => ?_
  rw [hperiod] at hsecondsRest hfrequencyRest
  have hrest := Nat.mod_lt seconds.toNat hp
  have hrest' := Nat.mod_lt frequency.toNat hp
  have hproduct : secondsRest.toNat * frequencyRest.toNat < 2 ^ 64 := by
    rw [hsecondsRest, hfrequencyRest]
    calc _ < m.period * m.period := Nat.mul_lt_mul'' hrest hrest'
      _ ≤ 2 ^ 32 * 2 ^ 32 := Nat.mul_le_mul hp' hp'
  refine .bind (.mul hproduct) fun wholeProduct hwholeProduct => ?_
  refine .bind (.mod hpos) fun wholeTicks hwholeTicks => ?_
  have hfraction : remainder.toNat * frequency.toNat < 2 ^ 64 := by
    have hr : remainder.toNat < 1000000000 := hremainder ▸ Nat.mod_lt _ (by decide)
    calc _ < 1000000000 * 2 ^ 32 := Nat.mul_lt_mul'' hr hfrequency
      _ < 2 ^ 64 := by decide
  refine .bind (.mul hfraction) fun fractionalProduct hfractionalProduct => ?_
  refine .bind (.div (by decide)) fun fractionalQuotient hfractionalQuotient => ?_
  rw [Timer.nanosecondsPerSecond_toNat] at hfractionalQuotient
  refine .bind (.mod hpos) fun fractionalTicks hfractionalTicks => ?_
  rw [hperiod] at hwholeTicks hfractionalTicks
  have hwhole : wholeTicks.toNat < m.period := hwholeTicks ▸ Nat.mod_lt _ hp
  have hfractional : fractionalTicks.toNat < m.period := hfractionalTicks ▸ Nat.mod_lt _ hp
  refine .bind (.add (by omega)) fun sum hsum => ?_
  refine .bind (.mod hpos) fun elapsedTicks helapsedTicks => ?_
  rw [hperiod] at helapsedTicks
  have hticks : elapsedTicks.toNat < m.period := helapsedTicks ▸ Nat.mod_lt _ hp
  have hcounter : m.counter.toUInt64.toNat = m.counter.toNat := UInt32.toNat_toUInt64 _
  refine .bind (.add (by omega)) fun counter hcounterSum => ?_
  refine .bind (.mod hpos) fun tick htick => ?_
  rw [hperiod] at htick
  have hlt : tick.toNat < m.period := htick ▸ Nat.mod_lt _ hp
  refine (Yields.narrow (by omega)).mono fun result hresult => ?_
  rw [hresult, htick, hcounterSum, hcounter, helapsedTicks, hsum, hwholeTicks, hwholeProduct,
    hsecondsRest, hfrequencyRest, hfractionalTicks, hfractionalQuotient, hfractionalProduct,
    hseconds, hremainder]

end

theorem counterAt_exact (m : Timer) (now : UInt64) (h : m.startedAtNanoseconds ≤ now) :
    (counterAt m now).value = m.counterAt now ∧
      Yields (counterAt m now) fun tick => tick.toNat =
        if frequency m = 0 then m.counter.toNat
        else (m.counter.toNat + (now.toNat - m.startedAtNanoseconds.toNat) * frequency m /
          1000000000) % (m.autoReload.toNat + 1) := by
  refine ⟨counterAt_value m now, ?_⟩
  have hreload := m.autoReload.toNat_lt
  refine .bind (.add ?_) fun period hperiod => ?_
  · rw [UInt32.toNat_toUInt64, UInt64.toNat_one]
    omega
  rw [UInt32.toNat_toUInt64, UInt64.toNat_one] at hperiod
  refine .bind (tickFrequencyHz_spec m) fun f hf => ?_
  have hlt : frequency m < 2 ^ 32 := frequency_lt
  split
  · rename_i hzero
    have hnone : frequency m = 0 := by rw [← hf, hzero, UInt64.toNat_zero]
    exact .pure (by rw [if_pos hnone])
  · rename_i hnonzero
    have hsome : frequency m ≠ 0 := fun h0 => hnonzero (UInt64.toNat_inj.mp (hf.trans h0))
    rw [if_neg hsome, ← hf]
    exact countedAt_spec h hperiod (by omega)

theorem counterAt_exact_longRun :
    (({ timerInputHz := 4000000000, prescaler := 0, autoReload := 999, counter := 7,
        startedAtNanoseconds := 1 } : Timer).counterAt 0xFFFFFFFFFFFFFFFF).toNat =
      (7 + 18446744073709551614 * 4000000000 / 1000000000) % 1000 := by
  obtain ⟨hvalue, hyields, -⟩ := counterAt_exact
    { timerInputHz := 4000000000, prescaler := 0, autoReload := 999, counter := 7,
      startedAtNanoseconds := 1 } 0xFFFFFFFFFFFFFFFF (by decide)
  rw [hvalue] at hyields
  exact hyields

end SimPLCity.TimerArithmetic
