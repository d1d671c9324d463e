import SimPLCity.TimerArithmetic
import SimPLCity.UnitScaling
import Mathlib.Tactic.Ring

/-! How long the worker of the simulated timer waits for the next overflow. -/

namespace SimPLCity.OverflowWait
open LinuxTimer WordArithmetic TimerArithmetic UnitScaling

/-- `nanosecondsUntilOverflowUnlocked` for a frequency that is not zero. -/
def untilOverflow (period counter frequency : UInt64) : Accounted UInt64 := do
  let ticksUntilOverflow ← sub period counter
  let product ← mul ticksUntilOverflow nanosecondsPerSecond
  let sum ← add product frequency
  let numerator ← sub sum 1
  div numerator frequency

/-- The counter, computed or stored, below the period. -/
def currentCounter (m : Timer) (period now : UInt64) : Accounted UInt64 :=
  if m.running then do
    let counter ← counterAt m now
    convert UInt32.toUInt64 counter
  else mod m.counter.toUInt64 period

def nanosecondsUntilOverflow (m : Timer) (now : UInt64) : Accounted UInt64 := do
  let frequency ← tickFrequencyHz m
  if frequency = 0 then pure nanosecondsPerSecond
  else do
    let period ← add m.autoReload.toUInt64 1
    let counter ← currentCounter m period now
    untilOverflow period counter frequency

theorem currentCounter_value (m : Timer) (period now : UInt64) :
    (currentCounter m period now).value =
      if m.running then (m.counterAt now).toUInt64 else m.counter.toUInt64 % period := by
  unfold currentCounter
  split
  · exact value_bind (counterAt_value m now)
  · rfl

theorem nanosecondsUntilOverflow_value (m : Timer) (now : UInt64) :
    (nanosecondsUntilOverflow m now).value = m.nanosecondsUntilOverflow now := by
  have hsteps : (nanosecondsUntilOverflow m now).value =
      (if m.tickFrequencyHz.toUInt64 = 0 then pure nanosecondsPerSecond
        else do
          let period ← add m.autoReload.toUInt64 1
          let counter ← currentCounter m period now
          untilOverflow period counter m.tickFrequencyHz.toUInt64 : Accounted UInt64).value :=
    value_bind (tickFrequencyHz_value m)
  rw [hsteps]
  unfold Timer.nanosecondsUntilOverflow
  dsimp only
  by_cases hzero : m.tickFrequencyHz.toUInt64 = 0
  · rw [if_pos hzero, if_pos hzero, pure_value]
  · rw [if_neg hzero, if_neg hzero]
    exact (value_bind (add_value ..)).trans (value_bind (currentCounter_value ..))

/-- `timespec` with `time_t` and `long` of 64 bits. -/
structure Timespec where
  tvSec : Int64
  tvNsec : Int64
deriving DecidableEq, Repr

namespace Timespec

def nanoseconds (t : Timespec) : Int := t.tvSec.toInt * 1000000000 + t.tvNsec.toInt

/-- A reading of the monotonic clock that can be told in 64 bits. -/
structure Reading (t : Timespec) : Prop where
  seconds : 0 ≤ t.tvSec
  fraction : 0 ≤ t.tvNsec
  fractionBelow : t.tvNsec.toInt < 1000000000
  below : t.nanoseconds < 2 ^ 64

end Timespec

def monotonicNanoseconds (now : Timespec) : Accounted UInt64 := do
  let seconds ← convert Int64.toUInt64 now.tvSec
  let whole ← mul seconds nanosecondsPerSecond
  let fraction ← convert Int64.toUInt64 now.tvNsec
  add whole fraction

/-- The clock is read once more for the deadline. -/
def monotonicDeadline (reading : Timespec) (delayNanoseconds : UInt64) : Accounted Timespec := do
  let fraction ← convert Int64.toUInt64 reading.tvNsec
  let nanoseconds ← add fraction delayNanoseconds
  let seconds ← div nanoseconds nanosecondsPerSecond
  let seconds ← convert UInt64.toInt64 seconds
  let tvSec ← add reading.tvSec seconds
  let rest ← mod nanoseconds nanosecondsPerSecond
  let tvNsec ← convert UInt64.toInt64 rest
  pure ⟨tvSec, tvNsec⟩

theorem monotonicNanoseconds_spec {now : Timespec} (h : now.Reading) :
    Yields (monotonicNanoseconds now) fun n => (n.toNat : Int) = now.nanoseconds := by
  have hbelow := h.below
  unfold Timespec.nanoseconds at hbelow ⊢
  have hseconds := Int64.le_iff_toInt_le.mp h.seconds
  have hfraction := Int64.le_iff_toInt_le.mp h.fraction
  rw [Int64.toInt_zero] at hseconds hfraction
  refine .bind (.unsigned h.seconds) fun seconds hs => ?_
  refine .bind (.mul ?_) fun whole hw => ?_
  · rw [Timer.nanosecondsPerSecond_toNat]
    omega
  rw [Timer.nanosecondsPerSecond_toNat] at hw
  refine .bind (.unsigned h.fraction) fun fraction hf => ?_
  exact (Yields.add (by omega)).mono fun n hn => by omega

theorem monotonicDeadline_spec {reading : Timespec} (h : reading.Reading)
    {delay : UInt64} (hdelay : delay.toNat < 2 ^ 63) :
    Yields (monotonicDeadline reading delay) fun deadline =>
      deadline.nanoseconds = reading.nanoseconds + delay.toNat ∧
        0 ≤ deadline.tvNsec.toInt ∧ deadline.tvNsec.toInt < 1000000000 := by
  have hbelow := h.below
  have hfractionBelow := h.fractionBelow
  unfold Timespec.nanoseconds at hbelow ⊢
  have hseconds := Int64.le_iff_toInt_le.mp h.seconds
  have hfraction := Int64.le_iff_toInt_le.mp h.fraction
  rw [Int64.toInt_zero] at hseconds hfraction
  refine .bind (.unsigned h.fraction) fun fraction hf => ?_
  refine .bind (.add (by omega)) fun nanoseconds hn => ?_
  refine .bind (.div (by decide)) fun quotient hq => ?_
  rw [Timer.nanosecondsPerSecond_toNat] at hq
  have hquotient : quotient.toNat ≤ 2 ^ 63 - 1 := by omega
  refine .bind (.convert (toInt_toInt64 hquotient)) fun seconds hs => ?_
  rw [toInt_int64, toInt_uInt64] at hs
  refine .bind (.signedAdd (by omega) (by omega)) fun tvSec hsec => ?_
  refine .bind (.mod (by decide)) fun rest hr => ?_
  rw [Timer.nanosecondsPerSecond_toNat] at hr
  have hrest : rest.toNat ≤ 2 ^ 63 - 1 := by omega
  refine .bind (.convert (toInt_toInt64 hrest)) fun tvNsec hnsec => .pure ?_
  rw [toInt_int64, toInt_uInt64] at hnsec
  dsimp only
  omega

theorem untilOverflow_spec {period counter frequency : UInt64} (hperiod : period.toNat ≤ 2 ^ 32)
    (hcounter : counter.toNat ≤ period.toNat) (hf : 0 < frequency.toNat)
    (hfrequency : frequency.toNat < 2 ^ 32) :
    Yields (untilOverflow period counter frequency) fun wait => wait.toNat =
      ((period.toNat - counter.toNat) * 1000000000 + frequency.toNat - 1) / frequency.toNat := by
  refine .bind (.sub hcounter) fun ticks hticks => ?_
  refine .bind (.mul ?_) fun product hproduct => ?_
  · rw [Timer.nanosecondsPerSecond_toNat]
    omega
  rw [Timer.nanosecondsPerSecond_toNat] at hproduct
  refine .bind (.add (by omega)) fun sum hsum => ?_
  refine .bind (.sub (by rw [UInt64.toNat_one]; omega)) fun numerator hnumerator => ?_
  rw [UInt64.toNat_one] at hnumerator
  refine (Yields.div hf).mono fun wait hwait => ?_
  rw [hwait, hnumerator, hsum, hproduct, hticks]

/-- The ticks since the timer was started. -/
def elapsedTicks (m : Timer) (time : Int) : Nat :=
  (time - m.startedAtNanoseconds.toNat).toNat * frequency m / 1000000000

/-- After so many ticks the counter has come to its period for the first time after `now`. -/
structure NextOverflow (m : Timer) (now : Int) (ticks : Nat) : Prop where
  wraps : (m.counter.toNat + ticks) % (m.autoReload.toNat + 1) = 0
  later : elapsedTicks m now < ticks
  first : ∀ k, elapsedTicks m now < k → k < ticks →
    (m.counter.toNat + k) % (m.autoReload.toNat + 1) ≠ 0

theorem next_multiple {c e p : Nat} (hp : 0 < p) :
    (c + (e + (p - (c + e) % p))) % p = 0 ∧ e < e + (p - (c + e) % p) ∧
      ∀ k, e < k → k < e + (p - (c + e) % p) → (c + k) % p ≠ 0 := by
  have hlt := Nat.mod_lt (c + e) hp
  have hsplit := Nat.div_add_mod (c + e) p
  refine ⟨?_, by omega, fun k hk hk' hzero => ?_⟩
  · have hsum : c + (e + (p - (c + e) % p)) = p * ((c + e) / p + 1) := by
      rw [Nat.mul_succ]
      omega
    rw [hsum, Nat.mul_mod_right]
  · obtain ⟨q, hq⟩ := Nat.dvd_of_mod_eq_zero hzero
    have hlow : p * ((c + e) / p) < p * q := by omega
    have hhigh : p * q < p * ((c + e) / p + 1) := by
      rw [Nat.mul_succ]
      omega
    have := Nat.lt_of_mul_lt_mul_left hlow
    have := Nat.lt_of_mul_lt_mul_left hhigh
    omega

/-- `e` nanoseconds have gone by. Waiting for `d` ticks, rounded up, reaches them and ends less than
a tick and a nanosecond later. -/
theorem rounded_wait {e d f : Nat} (hf : 0 < f) :
    (e * f / 1000000000 + d) * 1000000000 ≤ (e + (d * 1000000000 + f - 1) / f) * f ∧
      (e + (d * 1000000000 + f - 1) / f) * f <
        (e * f / 1000000000 + d) * 1000000000 + 1000000000 + f := by
  have hfloor := Nat.div_add_mod (e * f) 1000000000
  have hrest := Nat.mod_lt (e * f) (show 0 < 1000000000 by decide)
  have hceil := Nat.div_add_mod (d * 1000000000 + f - 1) f
  have hrest' := Nat.mod_lt (d * 1000000000 + f - 1) hf
  rw [Nat.mul_comm f] at hceil
  rw [Nat.add_mul e]
  omega

/-- What the worker passes to `pthread_cond_timedwait`; `now2` is the reading for the deadline. -/
def workerDeadline (m : Timer) (now now2 : Timespec) : Accounted Timespec := do
  let nanoseconds ← monotonicNanoseconds now
  let wait ← nanosecondsUntilOverflow m nanoseconds
  monotonicDeadline now2 wait

section
variable {m : Timer}

/-- Nanoseconds since the timer was started. -/
def sinceStart (m : Timer) (time : Int) : Int := time - m.startedAtNanoseconds.toNat

theorem counterAt_running (hf : frequency m ≠ 0) {now : UInt64}
    (h : m.startedAtNanoseconds ≤ now) :
    Yields (counterAt m now) fun tick => tick.toNat =
      (m.counter.toNat + elapsedTicks m now.toNat) % (m.autoReload.toNat + 1) := by
  refine (counterAt_exact m now h).2.mono fun tick htick => ?_
  have hle := UInt64.le_iff_toNat_le.mp h
  rw [htick, if_neg hf, elapsedTicks, Int.toNat_sub']
  rfl

theorem nanosecondsUntilOverflow_spec (hrunning : m.running = true) (hf : frequency m ≠ 0)
    {now : UInt64} (h : m.startedAtNanoseconds ≤ now) :
    Yields (nanosecondsUntilOverflow m now) fun wait => wait.toNat =
      ((m.autoReload.toNat + 1 - (m.counter.toNat + elapsedTicks m now.toNat) %
        (m.autoReload.toNat + 1)) * 1000000000 + frequency m - 1) / frequency m := by
  have hreload := m.autoReload.toNat_lt
  have hlt : frequency m < 2 ^ 32 := frequency_lt
  refine .bind (tickFrequencyHz_spec m) fun f hfrequency => ?_
  have hnonzero : f ≠ 0 := fun h0 => hf (by rw [← hfrequency, h0, UInt64.toNat_zero])
  rw [if_neg hnonzero]
  refine .bind (.add ?_) fun period hperiod => ?_
  · rw [UInt32.toNat_toUInt64, UInt64.toNat_one]
    omega
  rw [UInt32.toNat_toUInt64, UInt64.toNat_one] at hperiod
  have hmod := Nat.mod_lt (m.counter.toNat + elapsedTicks m now.toNat)
    (show 0 < m.autoReload.toNat + 1 by omega)
  have hcurrent : Yields (currentCounter m period now) fun counter => counter.toNat =
      (m.counter.toNat + elapsedTicks m now.toNat) % (m.autoReload.toNat + 1) := by
    unfold currentCounter
    rw [if_pos hrunning]
    refine .bind (counterAt_running hf h) fun counter hcounter => ?_
    have hwide : counter.toUInt64.toNat = counter.toNat := UInt32.toNat_toUInt64 _
    exact ⟨hwide.trans hcounter, convert_exact (by simp)⟩
  refine .bind hcurrent fun counter hcounter => ?_
  refine (untilOverflow_spec (by omega) (by omega) (by omega) (by omega)).mono fun wait hwait => ?_
  rw [hwait, hperiod, hcounter, hfrequency]

end

/-- The deadline is at or after the next overflow, and less than a tick and a nanosecond after it
when the clock has not moved in between. -/
structure InTime (m : Timer) (now now2 deadline : Timespec) (ticks : Nat) : Prop where
  reached : ticks ≤ elapsedTicks m deadline.nanoseconds ∧
    (ticks : Int) * 1000000000 ≤ sinceStart m deadline.nanoseconds * frequency m
  soon : now2.nanoseconds = now.nanoseconds → sinceStart m deadline.nanoseconds * frequency m <
    (ticks : Int) * 1000000000 + 1000000000 + frequency m

theorem overflow_wait (m : Timer) (now now2 : Timespec) (hrunning : m.running = true)
    (hf : frequency m ≠ 0) (hnow : now.Reading) (hnow2 : now2.Reading)
    (hlater : now.nanoseconds ≤ now2.nanoseconds)
    (hstarted : (m.startedAtNanoseconds.toNat : Int) ≤ now.nanoseconds) :
    (∀ n, (nanosecondsUntilOverflow m n).value = m.nanosecondsUntilOverflow n) ∧
    ∃ ticks, NextOverflow m now.nanoseconds ticks ∧
      Yields (workerDeadline m now now2) fun deadline => InTime m now now2 deadline ticks := by
  obtain ⟨hwraps, hmore, hfirst⟩ := next_multiple (c := m.counter.toNat)
    (e := elapsedTicks m now.nanoseconds) (show 0 < m.autoReload.toNat + 1 by omega)
  refine ⟨nanosecondsUntilOverflow_value m, _, ⟨hwraps, hmore, hfirst⟩, ?_⟩
  refine .bind (monotonicNanoseconds_spec hnow) fun n hn => ?_
  have hle : m.startedAtNanoseconds ≤ n := UInt64.le_iff_toNat_le.mpr (by omega)
  refine .bind (nanosecondsUntilOverflow_spec hrunning hf hle) fun wait hwait => ?_
  rw [hn] at hwait
  have hlt : frequency m < 2 ^ 32 := frequency_lt
  have hreload := m.autoReload.toNat_lt
  generalize hd : m.autoReload.toNat + 1 - (m.counter.toNat + elapsedTicks m now.nanoseconds) %
    (m.autoReload.toNat + 1) = d at hwait ⊢
  have hdelay : wait.toNat < 2 ^ 63 := by
    rw [hwait]
    refine Nat.lt_of_le_of_lt (Nat.div_le_self ..) ?_
    omega
  refine (monotonicDeadline_spec hnow2 hdelay).mono fun deadline hdeadline => ?_
  -- in nanoseconds since the start
  obtain ⟨e, he⟩ : ∃ e : Nat, sinceStart m now.nanoseconds = e :=
    Int.eq_ofNat_of_zero_le (Int.sub_nonneg.mpr hstarted)
  obtain ⟨x, hx⟩ : ∃ x : Nat, now2.nanoseconds = now.nanoseconds + x :=
    ⟨(now2.nanoseconds - now.nanoseconds).toNat, by omega⟩
  have hticks : elapsedTicks m now.nanoseconds = e * frequency m / 1000000000 := by
    change (sinceStart m now.nanoseconds).toNat * frequency m / 1000000000 = _
    rw [he, Int.toNat_natCast]
  have hsince : sinceStart m deadline.nanoseconds = ((e + wait.toNat + x : Nat) : Int) := by
    unfold sinceStart at he ⊢
    omega
  obtain ⟨hlow, hhigh⟩ := rounded_wait (e := e) (d := d) (Nat.pos_of_ne_zero hf)
  rw [← hwait] at hlow hhigh
  have hextra : (e + wait.toNat) * frequency m ≤ (e + wait.toNat + x) * frequency m :=
    Nat.mul_le_mul_right _ (by omega)
  rw [hticks]
  refine ⟨⟨?_, ?_⟩, fun hsame => ?_⟩
  · change _ ≤ (sinceStart m deadline.nanoseconds).toNat * frequency m / 1000000000
    rw [hsince, Int.toNat_natCast, Nat.le_div_iff_mul_le (by decide)]
    omega
  · rw [hsince]
    exact_mod_cast hlow.trans hextra
  · obtain rfl : x = 0 := by omega
    rw [hsince]
    exact_mod_cast hhigh

theorem overflow_wait_thousandHertz :
    ∃ ticks, NextOverflow
        { timerInputHz := 1000, prescaler := 0, autoReload := 199, counter := 150,
          startedAtNanoseconds := 5000000000, running := true } 5000500000 ticks ∧
      Yields (workerDeadline
        { timerInputHz := 1000, prescaler := 0, autoReload := 199, counter := 150,
          startedAtNanoseconds := 5000000000, running := true } ⟨5, 500000⟩ ⟨5, 600000⟩)
        fun deadline => InTime
          { timerInputHz := 1000, prescaler := 0, autoReload := 199, counter := 150,
            startedAtNanoseconds := 5000000000, running := true }
          ⟨5, 500000⟩ ⟨5, 600000⟩ deadline ticks :=
  (overflow_wait
    { timerInputHz := 1000, prescaler := 0, autoReload := 199, counter := 150,
      startedAtNanoseconds := 5000000000, running := true }
    ⟨5, 500000⟩ ⟨5, 600000⟩ rfl (by decide) ⟨by decide, by decide, by decide, by decide⟩
    ⟨by decide, by decide, by decide, by decide⟩ (by decide) (by decide)).2

end SimPLCity.OverflowWait
