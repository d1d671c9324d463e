import SimPLCity.SleepFor

/-! Waiting until a deadline. The deadline is read on the system clock and the waits are in ticks, so
that a wait may end before the deadline and is then made again; the last attempt does not block. -/

namespace SimPLCity.TimedWaits
open WordArithmetic
open SleepFor (nanosecondsPerSecond ticksPerSecond waitForever maxFiniteWait wholeTicksOf
  nanosecondsPerSecond_toNat ticksPerSecond_toNat waitForever_toNat toNat_min)

structure TimePoint where
  tvSec : Int64
  tvNsec : Int64
deriving DecidableEq, Repr

abbrev noWait : UInt32 := 0

/-! The statuses of ThreadX and the error numbers of the C library -/

abbrev success : UInt32 := 0x00

abbrev noInstance : UInt32 := 0x0D

abbrev notAvailable : UInt32 := 0x1D

abbrev etimedout : Nat := 116

abbrev einval : Nat := 22

def maximumSeconds : Int64 := Int64.maxValue / 1000000000

/-- `std::clamp` -/
def clamp (v low high : Int64) : Int64 := if v < low then low else if high < v then high else v

def timespecToNanoseconds (time : TimePoint) : Accounted Int64 :=
  if time.tvSec ≥ maximumSeconds then pure Int64.maxValue
  else if time.tvSec < 0 then pure (-1)
  else do
    let seconds ← mul time.tvSec 1000000000
    add seconds (clamp time.tvNsec 0 999999999)

def durationToTicks (nanoseconds : UInt64) : Accounted UInt32 :=
  if nanoseconds = 0 then pure noWait
  else if nanoseconds / nanosecondsPerSecond > waitForever.toUInt64 / ticksPerSecond then
    pure maxFiniteWait
  else do
    let ticks ← wholeTicksOf nanoseconds
    convert UInt64.toUInt32 (min ticks maxFiniteWait.toUInt64)

/-- `now` is what `system_time_nanoseconds` returns, which is never negative. -/
def deadlineWaitTicks (deadline : Option TimePoint) (now : Int64) : Accounted UInt32 :=
  match deadline with
  | none => pure noWait
  | some deadline => do
    let deadlineNanoseconds ← timespecToNanoseconds deadline
    if deadlineNanoseconds ≤ now then pure noWait
    else do
      let difference ← sub deadlineNanoseconds now
      let remaining ← convert Int64.toUInt64 difference
      let ticks ← durationToTicks remaining
      pure (min ticks maxFiniteWait)

/-- A call of the wait function, with the clock reading before it if there was one. -/
structure Call where
  now : Option Int64
  ticks : UInt32
  status : UInt32
deriving DecidableEq, Repr

/-- The calls so far and what `wait_until` has returned. -/
structure Wait where
  calls : List Call := []
  result : Option Nat := none
deriving DecidableEq, Repr

/-- What `wait_until` returns after a call, if it does not go on. -/
def answer (ticks status : UInt32) : Option Nat :=
  if ticks = noWait then some (if status = success then 0 else etimedout)
  else if status = success then some 0
  else if status ≠ noInstance ∧ status ≠ notAvailable then some einval
  else none

/-- The loop from its `i`th iteration on, with at most `fuel` iterations. -/
def waitUntil (deadline : Option TimePoint) (clock : Nat → Int64) (native : Nat → UInt32) :
    (fuel i : Nat) → Accounted Wait
  | 0, _ => pure {}
  | fuel + 1, i => do
    let ticks ← deadlineWaitTicks deadline (clock i)
    let call : Call := ⟨deadline.map fun _ => clock i, ticks, native i⟩
    match answer ticks (native i) with
    | some code => pure ⟨[call], some code⟩
    | none => do
      let rest ← waitUntil deadline clock native fuel (i + 1)
      pure ⟨call :: rest.calls, rest.result⟩

/-- The deadline in nanoseconds, with less than a second of them beside the seconds. -/
def exactNanoseconds (time : TimePoint) : Int :=
  time.tvSec.toInt * 10 ^ 9 + max 0 (min time.tvNsec.toInt (10 ^ 9 - 1))

/-- As far as they can be represented. -/
def saturatedNanoseconds (time : TimePoint) : Int :=
  if 9223372036 ≤ time.tvSec.toInt then 2 ^ 63 - 1
  else if time.tvSec.toInt < 0 then -1
  else exactNanoseconds time

/-- Only deadlines in the last second that can be represented, or before 1970, are moved, and none
to an earlier time than the greatest one. -/
structure Saturates (time : TimePoint) : Prop where
  exact : 0 ≤ time.tvSec.toInt → time.tvSec.toInt < 9223372036 →
    saturatedNanoseconds time = exactNanoseconds time
  notEarlier : min (exactNanoseconds time) (2 ^ 63 - 1) ≤ saturatedNanoseconds time
  past : exactNanoseconds time < 0 ↔ saturatedNanoseconds time < 0

theorem saturates (time : TimePoint) : Saturates time := by
  constructor <;> unfold saturatedNanoseconds
  · intro hpast hlate
    rw [if_neg (by omega), if_neg (by omega)]
  all_goals
    unfold exactNanoseconds
    split
    · omega
    · split <;> omega

theorem toInt_clamp (v : Int64) :
    (clamp v 0 999999999).toInt = max 0 (min v.toInt (10 ^ 9 - 1)) := by
  have hzero : (0 : Int64).toInt = 0 := rfl
  have hhigh : (999999999 : Int64).toInt = 10 ^ 9 - 1 := rfl
  unfold clamp
  simp only [Int64.lt_iff_toInt_lt, hzero, hhigh]
  split
  · rw [hzero]
    omega
  · split
    · rw [hhigh]
      omega
    · omega

theorem timespecToNanoseconds_spec (time : TimePoint) :
    Yields (timespecToNanoseconds time) fun n =>
      n.toInt = saturatedNanoseconds time ∧ -1 ≤ n.toInt := by
  have hmaximum : maximumSeconds.toInt = 9223372036 := by decide
  have hzero : (0 : Int64).toInt = 0 := rfl
  have hbillion : (1000000000 : Int64).toInt = 10 ^ 9 := rfl
  unfold timespecToNanoseconds saturatedNanoseconds exactNanoseconds
  simp only [ge_iff_le, Int64.le_iff_toInt_le, Int64.lt_iff_toInt_lt, hmaximum, hzero]
  split
  · exact .pure ⟨Int64.toInt_maxValue, by rw [Int64.toInt_maxValue]; decide⟩
  · rename_i hsmall
    split
    · exact .pure ⟨rfl, by decide⟩
    · rename_i hnonneg
      have hclamp := toInt_clamp time.tvNsec
      refine .bind (.signedMul (by rw [hbillion]; omega) (by rw [hbillion]; omega))
        fun seconds hseconds => ?_
      rw [hbillion] at hseconds
      refine (Yields.signedAdd (by omega) (by omega)).mono fun sum hsum => ?_
      rw [hsum, hseconds, hclamp]
      omega

/-- The ticks of so many nanoseconds, rounded up. -/
def ticksFor (nanoseconds : Nat) : Nat := (nanoseconds * 1000 + (10 ^ 9 - 1)) / 10 ^ 9

theorem maxFiniteWait_toNat : maxFiniteWait.toNat = 2 ^ 32 - 2 := by decide

theorem durationToTicks_spec (nanoseconds : UInt64) :
    Yields (durationToTicks nanoseconds) fun ticks =>
      ticks.toNat = min (ticksFor nanoseconds.toNat) (2 ^ 32 - 2) := by
  unfold durationToTicks ticksFor
  split
  · rename_i h
    subst h
    exact .pure (by simp)
  have hdiv : (nanoseconds / nanosecondsPerSecond).toNat = nanoseconds.toNat / 10 ^ 9 := by
    rw [UInt64.toNat_div, nanosecondsPerSecond_toNat]
  have hlimit : (waitForever.toUInt64 / ticksPerSecond).toNat = 4294967 := by decide
  simp only [gt_iff_lt, UInt64.lt_iff_toNat_lt, hdiv, hlimit]
  split
  · refine .pure ?_
    rw [maxFiniteWait_toNat]
    omega
  · refine .bind (SleepFor.wholeTicksOf_spec nanoseconds) fun ticks hticks => ?_
    have hmin : (min ticks maxFiniteWait.toUInt64).toNat = min ticks.toNat (2 ^ 32 - 2) := by
      rw [toNat_min, UInt32.toNat_toUInt64, maxFiniteWait_toNat]
    refine (Yields.narrow (by omega)).mono fun result hresult => ?_
    rw [hresult, hmin]
    omega

/-- The ticks are none from the deadline on, and otherwise those that are left, within the limit. -/
structure Until (deadline : Option TimePoint) (now : Int64) (ticks : UInt32) : Prop where
  passed : ticks = noWait → ∀ d ∈ deadline, saturatedNanoseconds d ≤ now.toInt
  left : ticks ≠ noWait → ∃ d, deadline = some d ∧ now.toInt < saturatedNanoseconds d ∧
    ticks.toNat = min (ticksFor (saturatedNanoseconds d - now.toInt).toNat) (2 ^ 32 - 2) ∧
    1 ≤ ticks ∧ ticks ≠ waitForever

theorem one_le_ticksFor {n : Nat} (h : 0 < n) : 1 ≤ ticksFor n := by
  unfold ticksFor
  omega

theorem deadlineWaitTicks_spec (deadline : Option TimePoint) {now : Int64} (hnow : 0 ≤ now) :
    Yields (deadlineWaitTicks deadline now) (Until deadline now) := by
  have hnow' : 0 ≤ now.toInt := Int64.le_iff_toInt_le.mp hnow
  unfold deadlineWaitTicks
  cases deadline with
  | none => exact .pure ⟨fun _ => by simp, fun hne => absurd rfl hne⟩
  | some d =>
    refine .bind (timespecToNanoseconds_spec d) fun n hn => ?_
    obtain ⟨hvalue, hlow⟩ := hn
    have hhigh := n.toInt_lt
    simp only [Int64.le_iff_toInt_le]
    split
    · rename_i hover
      refine .pure ⟨fun _ e he => ?_, fun hne => absurd rfl hne⟩
      cases he
      rwa [← hvalue]
    · rename_i hleft
      have hfuture : now.toInt < saturatedNanoseconds d := by omega
      refine .bind (.signedSub (by omega) (by omega)) fun difference hdifference => ?_
      have hpositive : 0 ≤ difference := by
        rw [Int64.le_iff_toInt_le, hdifference]
        change (0 : Int) ≤ _
        omega
      refine .bind (.unsigned hpositive) fun remaining hremaining => ?_
      have hnat : remaining.toNat = (saturatedNanoseconds d - now.toInt).toNat := by omega
      refine .bind (durationToTicks_spec remaining) fun ticks hticks => .pure ?_
      have hone : 1 ≤ ticksFor remaining.toNat := one_le_ticksFor (by omega)
      have hmin : min ticks maxFiniteWait = ticks := by
        have hle : ticks ≤ maxFiniteWait := by
          rw [UInt32.le_iff_toNat_le, maxFiniteWait_toNat]
          omega
        rw [show min ticks maxFiniteWait = if ticks ≤ maxFiniteWait then ticks else maxFiniteWait
          from rfl, if_pos hle]
      rw [hmin]
      refine ⟨fun h0 => ?_, fun _ => ⟨d, rfl, hfuture, hnat ▸ hticks, ?_, fun hforever => ?_⟩⟩
      · rw [h0] at hticks
        change 0 = _ at hticks
        omega
      · rw [UInt32.le_iff_toNat_le]
        change 1 ≤ _
        omega
      · rw [hforever, waitForever_toNat] at hticks
        omega

/-- The calls are in time: the last one is the only one that may have succeeded, and the wait times
out only after a last attempt at or after the deadline; until then each call blocks. -/
structure InTime (deadline : Option TimePoint) (w : Wait) : Prop where
  succeeds : w.result = some 0 ↔ ∃ call ∈ w.calls, call.status = success
  last : ∀ call ∈ w.calls.dropLast, call.status ≠ success
  timeout : w.result = some etimedout → ∃ call, w.calls.getLast? = some call ∧
    call.ticks = noWait ∧ call.status ≠ success ∧
    ∀ d ∈ deadline, ∃ now, call.now = some now ∧ saturatedNanoseconds d ≤ now.toInt
  blocking : ∀ call ∈ w.calls, call.ticks ≠ noWait → ∃ d now, deadline = some d ∧
    call.now = some now ∧ now.toInt < saturatedNanoseconds d ∧
    call.ticks.toNat = min (ticksFor (saturatedNanoseconds d - now.toInt).toNat) (2 ^ 32 - 2) ∧
    1 ≤ call.ticks ∧ call.ticks ≠ waitForever

section
variable {deadline : Option TimePoint} {now : Int64} {ticks status : UInt32}

theorem Until.blocking (h : Until deadline now ticks) (hne : ticks ≠ noWait) :
    ∃ d now', deadline = some d ∧ (deadline.map fun _ => now) = some now' ∧
      now'.toInt < saturatedNanoseconds d ∧
      ticks.toNat = min (ticksFor (saturatedNanoseconds d - now'.toInt).toNat) (2 ^ 32 - 2) ∧
      1 ≤ ticks ∧ ticks ≠ waitForever := by
  obtain ⟨d, rfl, hfuture, hticks, hone, hfinite⟩ := h.left hne
  exact ⟨d, now, rfl, rfl, hfuture, hticks, hone, hfinite⟩

theorem answer_none (h : answer ticks status = none) : ticks ≠ noWait ∧ status ≠ success := by
  unfold answer at h
  split at h
  · cases h
  · split at h
    · cases h
    · exact ⟨‹_›, ‹_›⟩

theorem answer_some {code : Nat} (h : answer ticks status = some code) :
    (code = 0 ↔ status = success) ∧ (code = etimedout → ticks = noWait ∧ status ≠ success) := by
  unfold answer at h
  split at h
  · rename_i hticks
    split at h <;> cases h
    · exact ⟨by simp_all, by simp⟩
    · exact ⟨by simp_all, fun _ => ⟨hticks, ‹_›⟩⟩
  · split at h
    · cases h
      exact ⟨by simp_all, by simp⟩
    · split at h <;> cases h
      exact ⟨by simp_all, by simp⟩

theorem inTime_end (h : Until deadline now ticks) {code : Nat}
    (ha : answer ticks status = some code) :
    InTime deadline ⟨[⟨deadline.map fun _ => now, ticks, status⟩], some code⟩ := by
  obtain ⟨hzero, htimedout⟩ := answer_some ha
  refine ⟨by simp [hzero], by simp, fun hresult => ?_, fun call hcall hne => ?_⟩
  · rw [Option.some.injEq] at hresult
    obtain ⟨hticks, hstatus⟩ := htimedout hresult
    refine ⟨_, rfl, hticks, hstatus, fun d hd => ⟨now, ?_, h.passed hticks d hd⟩⟩
    rw [Option.mem_def.mp hd]
    rfl
  · obtain rfl := List.mem_singleton.mp hcall
    exact h.blocking hne

theorem InTime.cons {w : Wait} (hw : InTime deadline w) (h : Until deadline now ticks)
    (ha : answer ticks status = none) :
    InTime deadline ⟨⟨deadline.map fun _ => now, ticks, status⟩ :: w.calls, w.result⟩ := by
  obtain ⟨hticks, hstatus⟩ := answer_none ha
  refine ⟨?_, fun call hcall => ?_, fun hresult => ?_, fun call hcall hne => ?_⟩
  · simp [hw.succeeds, hstatus]
  · cases hcalls : w.calls with
    | nil => simp [hcalls] at hcall
    | cons next rest =>
      rw [hcalls, List.dropLast_cons_of_ne_nil (List.cons_ne_nil next rest), ← hcalls] at hcall
      rcases List.mem_cons.mp hcall with rfl | hcall
      · exact hstatus
      · exact hw.last call hcall
  · obtain ⟨call, hcall, hrest⟩ := hw.timeout hresult
    refine ⟨call, ?_, hrest⟩
    rw [List.getLast?_cons, hcall]
    rfl
  · rcases List.mem_cons.mp hcall with rfl | hcall
    · exact h.blocking hne
    · exact hw.blocking call hcall hne

end

section
variable (deadline : Option TimePoint) (clock : Nat → Int64) (native : Nat → UInt32)

theorem waitUntil_inTime (hclock : ∀ i, 0 ≤ clock i) (fuel i : Nat) :
    Yields (waitUntil deadline clock native fuel i) (InTime deadline) := by
  induction fuel generalizing i with
  | zero => exact .pure ⟨by simp, by simp, by simp, by simp⟩
  | succ fuel ih =>
    refine .bind (deadlineWaitTicks_spec deadline (hclock i)) fun ticks hticks => ?_
    split
    · rename_i code ha
      exact .pure (inTime_end hticks ha)
    · rename_i ha
      exact .bind (ih (i + 1)) fun w hw => .pure (hw.cons hticks ha)

/-- The loop ends at the first reading at or after the deadline, if not before. -/
theorem waitUntil_ends (hclock : ∀ i, 0 ≤ clock i) {n : Nat}
    (hn : ∀ d ∈ deadline, saturatedNanoseconds d ≤ (clock n).toInt) {fuel i : Nat} (hi : i ≤ n)
    (hfuel : n < i + fuel) : (waitUntil deadline clock native fuel i).value.result.isSome := by
  induction fuel generalizing i with
  | zero => omega
  | succ fuel ih =>
    have hticks := (deadlineWaitTicks_spec deadline (hclock i)).1
    unfold waitUntil
    rw [value_bind rfl]
    generalize (deadlineWaitTicks deadline (clock i)).value = ticks at hticks
    cases ha : answer ticks (native i) with
    | some code => rfl
    | none =>
      have hne := (answer_none ha).1
      obtain ⟨d, hd, hfuture, -⟩ := hticks.left hne
      have hlater : i ≠ n := fun heq => by
        have hpast := hn d hd
        rw [heq] at hfuture
        omega
      exact ih (by omega) (by omega)

end

theorem wait_until_inTime (deadline : Option TimePoint) (clock : Nat → Int64)
    (native : Nat → UInt32) (hclock : ∀ i, 0 ≤ clock i) :
    (∀ fuel, InTime deadline (waitUntil deadline clock native fuel 0).value ∧
      (waitUntil deadline clock native fuel 0).exact = true) ∧
    (∀ n, (∀ d ∈ deadline, saturatedNanoseconds d ≤ (clock n).toInt) →
      (waitUntil deadline clock native (n + 1) 0).value.result.isSome) ∧
    ∀ d ∈ deadline, Saturates d :=
  ⟨fun fuel => waitUntil_inTime deadline clock native hclock fuel 0,
    fun n hn => waitUntil_ends deadline clock native hclock hn (Nat.zero_le n) (by omega),
    fun d _ => saturates d⟩

/-- The readings around a wait of two ticks that ends too early. -/
def earlyReadings : Nat → Int64
  | 0 => 5000000000
  | 1 => 5001000001
  | _ => 5002000000

theorem wait_until_inTime_early :
    InTime (some ⟨5, 2000000⟩)
        (waitUntil (some ⟨5, 2000000⟩) earlyReadings (fun _ => noInstance) 3 0).value ∧
      (waitUntil (some ⟨5, 2000000⟩) earlyReadings (fun _ => noInstance) 3 0).value =
        ⟨[⟨some 5000000000, 2, noInstance⟩, ⟨some 5001000001, 1, noInstance⟩,
          ⟨some 5002000000, 0, noInstance⟩], some etimedout⟩ := by
  have hclock : ∀ i, 0 ≤ earlyReadings i
    | 0 => by decide
    | 1 => by decide
    | _ + 2 => show (0 : Int64) ≤ 5002000000 by decide
  exact ⟨((wait_until_inTime _ _ _ hclock).1 3).1, by decide +kernel⟩

end SimPLCity.TimedWaits
