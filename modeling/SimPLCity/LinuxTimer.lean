import Mathlib.Algebra.Order.Ring.Nat

/-! The simulated hardware timer: a counter that is computed from the clock when it is read. -/

namespace SimPLCity.LinuxTimer

abbrev Tick := UInt32

abbrev Callback := Nat

abbrev nanosecondsPerSecond : UInt64 := 1000000000

/-- The greatest `Tick`. -/
abbrev maximumTick : UInt64 := 0xFFFFFFFF

structure Configuration where
  inputFrequencyHz : UInt32
  prescaler : Tick
  autoReload : Tick
deriving DecidableEq, Repr

structure Timer where
  timerInputHz : UInt32
  prescaler : Tick
  autoReload : Tick
  counter : Tick := 0
  startedAtNanoseconds : UInt64
  running : Bool := false
  interruptEnabled : Bool := false
  shuttingDown : Bool := false
  stateVersion : UInt32 := 0
  periodElapsedCallback : Option Callback := none
deriving DecidableEq, Repr

namespace Timer

def create (configuration : Configuration) (now : UInt64) : Timer where
  timerInputHz := configuration.inputFrequencyHz
  prescaler := configuration.prescaler
  autoReload := configuration.autoReload
  startedAtNanoseconds := now

def tickFrequencyHz (m : Timer) : UInt32 :=
  let divisor := m.prescaler.toUInt64 + 1
  (m.timerInputHz.toUInt64 / divisor).toUInt32

def counterAt (m : Timer) (now : UInt64) : Tick :=
  let period := m.autoReload.toUInt64 + 1
  let frequency := m.tickFrequencyHz.toUInt64
  if frequency = 0 then m.counter
  else
    let elapsedNanoseconds := now - m.startedAtNanoseconds
    let seconds := elapsedNanoseconds / nanosecondsPerSecond
    let remainder := elapsedNanoseconds % nanosecondsPerSecond
    let wholeTicks := (seconds % period) * (frequency % period) % period
    let fractionalTicks := remainder * frequency / nanosecondsPerSecond % period
    let elapsedTicks := (wholeTicks + fractionalTicks) % period
    ((m.counter.toUInt64 + elapsedTicks) % period).toUInt32

def nanosecondsUntilOverflow (m : Timer) (now : UInt64) : UInt64 :=
  let frequency := m.tickFrequencyHz.toUInt64
  if frequency = 0 then nanosecondsPerSecond
  else
    let period := m.autoReload.toUInt64 + 1
    let counter := if m.running then (m.counterAt now).toUInt64 else m.counter.toUInt64 % period
    let ticksUntilOverflow := period - counter
    (ticksUntilOverflow * nanosecondsPerSecond + frequency - 1) / frequency

def captureCounter (m : Timer) (now : UInt64) : Timer :=
  if m.running then { m with counter := m.counterAt now } else m

@[simp] theorem captureCounter_running (m : Timer) (now : UInt64) :
    (m.captureCounter now).running = m.running := by
  unfold captureCounter
  split <;> rfl

@[simp] theorem captureCounter_interruptEnabled (m : Timer) (now : UInt64) :
    (m.captureCounter now).interruptEnabled = m.interruptEnabled := by
  unfold captureCounter
  split <;> rfl

@[simp] theorem captureCounter_periodElapsedCallback (m : Timer) (now : UInt64) :
    (m.captureCounter now).periodElapsedCallback = m.periodElapsedCallback := by
  unfold captureCounter
  split <;> rfl

@[simp] theorem captureCounter_startedAtNanoseconds (m : Timer) (now : UInt64) :
    (m.captureCounter now).startedAtNanoseconds = m.startedAtNanoseconds := by
  unfold captureCounter
  split <;> rfl

def durationToTicks (m : Timer) (nanoseconds : Int64) : Tick :=
  let frequency := m.tickFrequencyHz.toUInt64
  if nanoseconds ≤ 0 ∨ frequency = 0 then 0
  else
    let seconds := nanoseconds.toUInt64 / nanosecondsPerSecond
    let remainder := nanoseconds.toUInt64 % nanosecondsPerSecond
    if seconds > maximumTick / frequency then maximumTick.toUInt32
    else
      let wholeTicks := seconds * frequency
      let fractionalTicks := (remainder * frequency + nanosecondsPerSecond - 1) / nanosecondsPerSecond
      if fractionalTicks > maximumTick - wholeTicks then maximumTick.toUInt32
      else (wholeTicks + fractionalTicks).toUInt32

/-- What `start` and `startIt` do; `none` is the error for a timer without ticks. -/
def startWith (m : Timer) (interruptEnabled : Bool) (now : UInt64) : Option Timer :=
  if m.tickFrequencyHz = 0 then none
  else
    some { m.captureCounter now with
      startedAtNanoseconds := now
      running := true
      interruptEnabled
      stateVersion := m.stateVersion + 1 }

def start (m : Timer) (now : UInt64) : Option Timer := m.startWith false now

def startIt (m : Timer) (now : UInt64) : Option Timer := m.startWith true now

def stop (m : Timer) (now : UInt64) : Timer :=
  { m.captureCounter now with
    running := false
    interruptEnabled := false
    stateVersion := m.stateVersion + 1 }

def stopIt (m : Timer) (now : UInt64) : Timer := m.stop now

def setCounter (m : Timer) (value : Tick) (now : UInt64) : Timer :=
  { m with
    counter := value
    startedAtNanoseconds := now
    stateVersion := m.stateVersion + 1 }

def setAutoReload (m : Timer) (value : Tick) (now : UInt64) : Timer :=
  { m.captureCounter now with
    autoReload := value
    startedAtNanoseconds := now
    stateVersion := m.stateVersion + 1 }

def setPeriod (m : Timer) (duration : Int64) (now : UInt64) : Timer :=
  let ticks := m.durationToTicks duration
  { m with
    autoReload := if ticks = 0 then 0 else ticks - 1
    counter := 0
    startedAtNanoseconds := now
    stateVersion := m.stateVersion + 1 }

def setPeriodElapsedCallback (m : Timer) (callback : Option Callback) : Timer :=
  { m with periodElapsedCallback := callback }

theorem ticks_split (e f : Nat) :
    e * f / 1000000000 = e / 1000000000 * f + e % 1000000000 * f / 1000000000 := by
  have he : e * f = 1000000000 * (e / 1000000000 * f) + e % 1000000000 * f := by
    rw [← Nat.mul_assoc, ← Nat.add_mul, Nat.div_add_mod]
  rw [he, Nat.mul_add_div (by decide)]

theorem ticks_mod (c e f p : Nat) :
    (c + (e / 1000000000 % p * (f % p) % p + e % 1000000000 * f / 1000000000 % p) % p) % p =
      (c + e * f / 1000000000) % p := by
  rw [ticks_split e f, ← Nat.mul_mod, ← Nat.add_mod, Nat.add_mod_mod]

/-- The ticks in a period. -/
def period (m : Timer) : Nat := m.autoReload.toNat + 1

/-- The ticks in a second. -/
def frequency (m : Timer) : Nat := m.tickFrequencyHz.toNat

theorem frequency_lt (m : Timer) : m.frequency < 2 ^ 32 := m.tickFrequencyHz.toNat_lt

theorem period_pos (m : Timer) : 0 < m.period := Nat.succ_pos _

theorem period_le (m : Timer) : m.period ≤ 2 ^ 32 := m.autoReload.toNat_lt

theorem period_toNat (m : Timer) : (m.autoReload.toUInt64 + 1).toNat = m.period := by
  have h := m.autoReload.toNat_lt
  simp only [UInt64.toNat_add, UInt32.toNat_toUInt64, UInt64.toNat_one, period]
  omega

theorem frequency_toNat (m : Timer) : m.tickFrequencyHz.toUInt64.toNat = m.frequency :=
  UInt32.toNat_toUInt64 _

theorem frequency_eq_zero (m : Timer) : m.tickFrequencyHz.toUInt64 = 0 ↔ m.frequency = 0 := by
  rw [← UInt64.toNat_inj, frequency_toNat, UInt64.toNat_zero]

theorem nanosecondsPerSecond_toNat : nanosecondsPerSecond.toNat = 1000000000 := rfl

theorem counterAt_toNat (m : Timer) (now : UInt64) (h : m.frequency ≠ 0) :
    (m.counterAt now).toNat = (m.counter.toNat +
      (now - m.startedAtNanoseconds).toNat * m.frequency / 1000000000) % m.period := by
  have hp := m.period_pos
  have hp' := m.period_le
  have hc := m.counter.toNat_lt
  unfold counterAt
  dsimp only
  rw [if_neg (mt m.frequency_eq_zero.mp h), ← ticks_mod]
  have hperiod := m.period_toNat
  have hfrequency := m.frequency_toNat
  generalize m.autoReload.toUInt64 + 1 = period at hperiod ⊢
  generalize m.tickFrequencyHz.toUInt64 = frequency at hfrequency ⊢
  generalize now - m.startedAtNanoseconds = elapsed
  simp only [UInt64.toNat_toUInt32, UInt64.toNat_mod, UInt64.toNat_add, UInt64.toNat_mul,
    UInt64.toNat_div, UInt32.toNat_toUInt64, hperiod, hfrequency, nanosecondsPerSecond_toNat]
  -- no product and no sum wraps
  have hwhole : elapsed.toNat / 1000000000 % m.period * (m.frequency % m.period) < 2 ^ 64 := by
    have hs := Nat.mod_lt (elapsed.toNat / 1000000000) hp
    have hf := Nat.mod_lt m.frequency hp
    calc _ < m.period * m.period := Nat.mul_lt_mul'' hs hf
      _ ≤ 2 ^ 32 * 2 ^ 32 := Nat.mul_le_mul hp' hp'
  have hfractional : elapsed.toNat % 1000000000 * m.frequency < 2 ^ 64 := by
    have hr := Nat.mod_lt elapsed.toNat (show 1000000000 > 0 by decide)
    calc _ < 1000000000 * 2 ^ 32 := Nat.mul_lt_mul'' hr m.frequency_lt
      _ < 2 ^ 64 := by decide
  rw [Nat.mod_eq_of_lt hwhole, Nat.mod_eq_of_lt hfractional]
  have hticks := Nat.mod_lt
    (elapsed.toNat / 1000000000 % m.period * (m.frequency % m.period)) hp
  have hticks' := Nat.mod_lt (elapsed.toNat % 1000000000 * m.frequency / 1000000000) hp
  generalize elapsed.toNat / 1000000000 % m.period * (m.frequency % m.period) % m.period = whole at *
  generalize elapsed.toNat % 1000000000 * m.frequency / 1000000000 % m.period = fractional at *
  rw [Nat.mod_eq_of_lt (show whole + fractional < 2 ^ 64 by omega)]
  have hsum := Nat.mod_lt (whole + fractional) hp
  generalize (whole + fractional) % m.period = ticks at *
  rw [Nat.mod_eq_of_lt (show m.counter.toNat + ticks < 2 ^ 64 by omega)]
  exact Nat.mod_eq_of_lt ((Nat.mod_lt _ hp).trans_le hp')

/-- The next overflow of a counter that starts at `c`, in nanoseconds from its start. -/
def untilOverflow (m : Timer) (c : Nat) : Nat :=
  ((m.period - c) * 1000000000 + m.frequency - 1) / m.frequency

theorem nanosecondsUntilOverflow_toNat (m : Timer) (now : UInt64) (h : m.frequency ≠ 0) :
    (m.nanosecondsUntilOverflow now).toNat = m.untilOverflow
      (if m.running then (m.counterAt now).toNat else m.counter.toNat % m.period) := by
  have hp := m.period_pos
  have hp' := m.period_le
  have hf := m.frequency_lt
  unfold nanosecondsUntilOverflow
  dsimp only
  rw [if_neg (mt m.frequency_eq_zero.mp h)]
  have hperiod := m.period_toNat
  have hfrequency := m.frequency_toNat
  generalize m.autoReload.toUInt64 + 1 = period at hperiod ⊢
  generalize m.tickFrequencyHz.toUInt64 = frequency at hfrequency ⊢
  have hcounter : (if m.running then (m.counterAt now).toUInt64
      else m.counter.toUInt64 % period).toNat =
      if m.running then (m.counterAt now).toNat else m.counter.toNat % m.period := by
    split
    · exact UInt32.toNat_toUInt64 _
    · rw [UInt64.toNat_mod, UInt32.toNat_toUInt64, hperiod]
  have hlt : (if m.running then (m.counterAt now).toNat else m.counter.toNat % m.period) <
      m.period := by
    split
    · rw [counterAt_toNat m now h]
      exact Nat.mod_lt _ hp
    · exact Nat.mod_lt _ hp
  generalize (if m.running then (m.counterAt now).toUInt64 else m.counter.toUInt64 % period) =
    counter at hcounter ⊢
  rw [← hcounter] at hlt ⊢
  have hticks : (period - counter).toNat = m.period - counter.toNat := by
    rw [UInt64.toNat_sub_of_le, hperiod]
    rw [UInt64.le_iff_toNat_le, hperiod]
    exact hlt.le
  have hle : m.period - counter.toNat ≤ 2 ^ 32 := (Nat.sub_le ..).trans hp'
  generalize period - counter = ticks at hticks ⊢
  rw [← hticks] at hle
  rw [untilOverflow, ← hticks]
  simp only [UInt64.toNat_div, UInt64.toNat_sub, UInt64.toNat_add, UInt64.toNat_mul,
    UInt64.toNat_one, hfrequency, nanosecondsPerSecond_toNat]
  have hnumerator : (2 ^ 64 - 1 + (ticks.toNat * 1000000000 % 2 ^ 64 + m.frequency) % 2 ^ 64) %
      2 ^ 64 = ticks.toNat * 1000000000 + m.frequency - 1 := by
    omega
  rw [hnumerator]

/-- When a counter that starts to count at `since` overflows first. -/
def firstOverflow (m : Timer) (since : Nat) : Nat :=
  since + m.untilOverflow (m.counter.toNat % m.period)

theorem untilOverflow_le (m : Timer) (c : Nat) : m.untilOverflow c ≤ 2 ^ 63 := by
  have hp := m.period_le
  have hticks : m.period - c ≤ 2 ^ 32 := (Nat.sub_le ..).trans hp
  unfold untilOverflow
  rcases Nat.eq_zero_or_pos m.frequency with hf | hf
  · rw [hf, Nat.div_zero]
    exact Nat.zero_le _
  · refine Nat.div_le_of_le_mul ?_
    have hle : m.frequency * 1 ≤ m.frequency * 2 ^ 62 := Nat.mul_le_mul_left _ (by decide)
    have hge : 2 ^ 62 ≤ m.frequency * 2 ^ 62 := Nat.le_mul_of_pos_left _ hf
    omega

theorem untilOverflow_elapsed (m : Timer) (hf : 0 < m.frequency) (c e : Nat) :
    m.untilOverflow (c % m.period) ≤
      e + m.untilOverflow ((c + e * m.frequency / 1000000000) % m.period) := by
  have hticks : e * m.frequency / 1000000000 * 1000000000 ≤ e * m.frequency :=
    Nat.div_mul_le_self ..
  have hcounter : (c + e * m.frequency / 1000000000) % m.period ≤
      c % m.period + e * m.frequency / 1000000000 := by
    rw [← Nat.mod_add_mod]
    exact Nat.mod_le ..
  generalize e * m.frequency / 1000000000 = ticks at *
  generalize (c + ticks) % m.period = later at *
  unfold untilOverflow
  rw [← Nat.mul_add_div hf]
  refine Nat.div_le_div_right ?_
  rw [Nat.mul_comm m.frequency e]
  omega

/-- Waiting from any moment does not end before the first overflow, even after the elapsed time has
wrapped. -/
theorem firstOverflow_le (m : Timer) (hrunning : m.running = true) {since now : Nat}
    (hstarted : m.startedAtNanoseconds = UInt64.ofNat since) (hle : since ≤ now) :
    m.firstOverflow since ≤ now + (m.nanosecondsUntilOverflow (UInt64.ofNat now)).toNat := by
  have hp := m.period_pos
  rcases Nat.eq_zero_or_pos m.frequency with hf | hf
  · rw [firstOverflow, untilOverflow, hf, Nat.div_zero]
    omega
  by_cases hwrap : now < since + 2 ^ 64
  · have helapsed : (UInt64.ofNat now - m.startedAtNanoseconds).toNat = now - since := by
      rw [hstarted, UInt64.toNat_sub, UInt64.toNat_ofNat', UInt64.toNat_ofNat']
      omega
    rw [nanosecondsUntilOverflow_toNat m _ hf.ne', if_pos hrunning, counterAt_toNat m _ hf.ne',
      helapsed, firstOverflow]
    have hwait := m.untilOverflow_elapsed hf m.counter.toNat (now - since)
    omega
  · have hbound := m.untilOverflow_le (m.counter.toNat % m.period)
    rw [firstOverflow]
    omega

theorem firstOverflow_startWith {m m' : Timer} {enabled : Bool} {since now : Nat}
    (h : m.startWith enabled (UInt64.ofNat now) = some m') (hrunning : m.running = true)
    (hstarted : m.startedAtNanoseconds = UInt64.ofNat since) (hle : since ≤ now) :
    m.firstOverflow since ≤ m'.firstOverflow now := by
  have hwait := m.firstOverflow_le hrunning hstarted hle
  simp only [startWith, Option.ite_none_left_eq_some, Option.some.injEq] at h
  obtain ⟨hf, rfl⟩ := h
  have hf' : m.frequency ≠ 0 := fun h0 => hf (UInt32.toNat_inj.mp h0)
  have hlt : (m.counterAt (UInt64.ofNat now)).toNat < m.period := by
    rw [counterAt_toNat m _ hf']
    exact Nat.mod_lt _ m.period_pos
  rw [nanosecondsUntilOverflow_toNat m _ hf', if_pos hrunning] at hwait
  rw [captureCounter, if_pos hrunning]
  change _ ≤ now + m.untilOverflow ((m.counterAt (UInt64.ofNat now)).toNat % m.period)
  rw [Nat.mod_eq_of_lt hlt]
  exact hwait

end Timer

end SimPLCity.LinuxTimer
