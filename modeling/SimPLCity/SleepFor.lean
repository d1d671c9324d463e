import Mathlib.Data.Rat.Defs
import Mathlib.Algebra.Order.Ring.Rat
import Mathlib.Algebra.BigOperators.Group.List.Basic
import Mathlib.Tactic.Linarith
import SimPLCity.WordArithmetic

/-! Sleeping for a number of nanoseconds: the number is converted to ticks and slept in chunks,
each with one tick more than it needs. The sum of the seconds and the nanoseconds may wrap. -/

namespace SimPLCity.SleepFor
open WordArithmetic

def nanosecondsPerSecond : UInt64 := 1000000000
def ticksPerSecond : UInt64 := 1000
def waitForever : UInt32 := 0xFFFFFFFF
def maxFiniteWait : UInt32 := waitForever - 1
def maximumChunk : UInt32 := maxFiniteWait - 1

theorem nanosecondsPerSecond_toNat : nanosecondsPerSecond.toNat = 10 ^ 9 := rfl

theorem ticksPerSecond_toNat : ticksPerSecond.toNat = 1000 := rfl

theorem waitForever_toNat : waitForever.toNat = 2 ^ 32 - 1 := rfl

theorem maximumChunk_toNat : maximumChunk.toUInt64.toNat = 2 ^ 32 - 3 := by decide

/-- One round of the loop: the argument of `tx_thread_sleep` and the ticks that are left. -/
def sleepChunk (ticks : UInt64) : Accounted (UInt32 × UInt64) := do
  let chunk ← convert UInt64.toUInt32 (min ticks maximumChunk.toUInt64)
  let argument ← add chunk 1
  let ticks ← sub ticks chunk.toUInt64
  pure (argument, ticks)

theorem toNat_min (a b : UInt64) : (min a b).toNat = min a.toNat b.toNat := by
  rw [show min a b = if a ≤ b then a else b from rfl]
  split <;> rename_i h <;> rw [UInt64.le_iff_toNat_le] at h <;> omega

theorem add_one_yields {a : UInt32} (h : a.toNat + 1 < 2 ^ 32) :
    Yields (add a 1) fun c => c.toNat = a.toNat + 1 := by
  have hplus : (a + 1).toNat = a.toNat + 1 := by
    rw [UInt32.toNat_add, UInt32.toNat_one, Nat.mod_eq_of_lt h]
  exact ⟨hplus, by simp [add, hplus]⟩

theorem sleepChunk_spec (ticks : UInt64) :
    Yields (sleepChunk ticks) fun round =>
      round.1.toNat = min ticks.toNat (2 ^ 32 - 3) + 1 ∧
        round.2.toNat = ticks.toNat - min ticks.toNat (2 ^ 32 - 3) := by
  have hmin : (min ticks maximumChunk.toUInt64).toNat = min ticks.toNat (2 ^ 32 - 3) := by
    rw [toNat_min, maximumChunk_toNat]
  refine .bind (.narrow (by omega)) fun chunk hchunk => ?_
  refine .bind (add_one_yields (by omega)) fun argument hargument => ?_
  have hback : chunk.toUInt64.toNat = chunk.toNat := UInt32.toNat_toUInt64 chunk
  refine .bind (.sub (by omega)) fun left hleft => ?_
  exact .pure ⟨by rw [hargument, hchunk, hmin], by rw [hleft, hback, hchunk, hmin]⟩

/-- `while (ticks != 0)` -/
def sleepChunks (ticks : UInt64) : Accounted (List UInt32) :=
  if ticks = 0 then pure []
  else
    let chunk := sleepChunk ticks
    let rest := sleepChunks chunk.value.2
    ⟨chunk.value.1 :: rest.value, chunk.exact && rest.exact⟩
termination_by ticks.toNat
decreasing_by
  rename_i h
  have hpos : 0 < ticks.toNat := Nat.pos_of_ne_zero fun h0 => h (UInt64.toNat_inj.mp h0)
  have hleft := (sleepChunk_spec ticks).1.2
  omega

/-- The ticks that the nanoseconds take, rounded up. -/
def wholeTicksOf (nanoseconds : UInt64) : Accounted UInt64 := do
  let wholeSeconds := nanoseconds / nanosecondsPerSecond
  let remainder := nanoseconds % nanosecondsPerSecond
  let wholeTicks ← mul wholeSeconds ticksPerSecond
  let product ← mul remainder ticksPerSecond
  let sum ← add product nanosecondsPerSecond
  let numerator ← sub sum 1
  add wholeTicks (numerator / nanosecondsPerSecond)

/-- The arguments of the calls of `tx_thread_sleep`, in order. -/
def sleepFor (nanoseconds : UInt64) : Accounted (List UInt32) :=
  if nanoseconds = 0 then pure []
  else do
    let ticks ← wholeTicksOf nanoseconds
    sleepChunks ticks

/-- The argument of `sleep_for`: the longest one where the seconds alone are too many. -/
def requestedTime (seconds nanoseconds : Int64) : Accounted UInt64 := do
  let secondsCount ← convert Int64.toUInt64 seconds
  if secondsCount > 0xFFFFFFFFFFFFFFFF / nanosecondsPerSecond then pure 0xFFFFFFFFFFFFFFFF
  else do
    let product ← mul secondsCount nanosecondsPerSecond
    let count ← convert Int64.toUInt64 nanoseconds
    add product count

/-- `std::this_thread::__sleep_for` -/
def thisThreadSleepFor (seconds nanoseconds : Int64) : Accounted (List UInt32) :=
  if seconds < 0 || nanoseconds < 0 then pure []
  else do
    let count ← requestedTime seconds nanoseconds
    sleepFor count

/-- The whole ticks that a call is sure to wait for. -/
def wholeTicks (argument : UInt32) : Nat := argument.toNat - 1

/-- The arguments wait for a number of ticks, each of them finite and at least one. -/
structure Waits (ticks : Nat) (arguments : List UInt32) : Prop where
  sum : (arguments.map wholeTicks).sum = ticks
  argument : ∀ argument ∈ arguments, 1 ≤ argument ∧ argument < waitForever

theorem Waits.nil : Waits 0 [] := ⟨rfl, by simp⟩

theorem Waits.cons {ticks chunk : Nat} {argument : UInt32} {arguments : List UInt32}
    (hargument : argument.toNat = chunk + 1) (hchunk : chunk ≤ 2 ^ 32 - 3)
    (h : Waits ticks arguments) : Waits (chunk + ticks) (argument :: arguments) := by
  constructor
  · rw [List.map_cons, List.sum_cons, h.sum, wholeTicks, hargument, Nat.add_sub_cancel]
  · intro a ha
    rcases List.mem_cons.mp ha with rfl | ha
    · rw [UInt32.le_iff_toNat_le, UInt32.lt_iff_toNat_lt, hargument, waitForever_toNat,
        UInt32.toNat_one]
      omega
    · exact h.argument a ha

theorem sleepChunks_spec (ticks : UInt64) : Yields (sleepChunks ticks) (Waits ticks.toNat) := by
  induction ticks using sleepChunks.induct with
  | case1 =>
    rw [sleepChunks, if_pos rfl]
    exact .pure .nil
  | case2 ticks hne chunk ih =>
    obtain ⟨⟨hargument, hleft⟩, hexact⟩ := sleepChunk_spec ticks
    rw [sleepChunks, if_neg hne]
    constructor
    · have hwaits := ih.1.cons hargument (Nat.min_le_right _ _)
      rwa [hleft, Nat.add_sub_of_le (Nat.min_le_left _ _)] at hwaits
    · change ((sleepChunk ticks).exact && (sleepChunks chunk.value.2).exact) = true
      rw [hexact, ih.2]
      rfl

theorem wholeTicksOf_spec (nanoseconds : UInt64) :
    Yields (wholeTicksOf nanoseconds) fun ticks =>
      nanoseconds.toNat ≤ ticks.toNat * 10 ^ 6 ∧ ticks.toNat * 10 ^ 6 < nanoseconds.toNat + 10 ^ 6 := by
  have hlt := nanoseconds.toNat_lt
  have hdiv : (nanoseconds / nanosecondsPerSecond).toNat = nanoseconds.toNat / 10 ^ 9 := by
    rw [UInt64.toNat_div, nanosecondsPerSecond_toNat]
  have hmod : (nanoseconds % nanosecondsPerSecond).toNat = nanoseconds.toNat % 10 ^ 9 := by
    rw [UInt64.toNat_mod, nanosecondsPerSecond_toNat]
  refine .bind (.mul ?_) fun whole hwhole => ?_
  · rw [hdiv, ticksPerSecond_toNat]
    omega
  refine .bind (.mul ?_) fun product hproduct => ?_
  · rw [hmod, ticksPerSecond_toNat]
    omega
  rw [hdiv, ticksPerSecond_toNat] at hwhole
  rw [hmod, ticksPerSecond_toNat] at hproduct
  refine .bind (.add ?_) fun sum hsum => ?_
  · rw [nanosecondsPerSecond_toNat]
    omega
  rw [nanosecondsPerSecond_toNat] at hsum
  refine .bind (.sub ?_) fun numerator hnumerator => ?_
  · rw [UInt64.toNat_one]
    omega
  rw [UInt64.toNat_one] at hnumerator
  have hquotient : (numerator / nanosecondsPerSecond).toNat = numerator.toNat / 10 ^ 9 := by
    rw [UInt64.toNat_div, nanosecondsPerSecond_toNat]
  refine (Yields.add (by omega)).mono fun ticks hticks => ?_
  omega

theorem sleepFor_spec (nanoseconds : UInt64) :
    Yields (sleepFor nanoseconds) fun arguments => ∃ ticks,
      Waits ticks arguments ∧ nanoseconds.toNat ≤ ticks * 10 ^ 6 ∧
        ticks * 10 ^ 6 < nanoseconds.toNat + 10 ^ 6 := by
  unfold sleepFor
  split
  · rename_i h
    subst h
    exact .pure ⟨0, .nil, by simp⟩
  · refine .bind (wholeTicksOf_spec nanoseconds) fun ticks hticks => ?_
    exact (sleepChunks_spec ticks).mono fun arguments h => ⟨ticks.toNat, h, hticks⟩

section
variable {seconds nanoseconds : Int64}

theorem saturates_iff (hs : 0 ≤ seconds) :
    seconds.toUInt64 > 0xFFFFFFFFFFFFFFFF / nanosecondsPerSecond ↔
      18446744073 < seconds.toInt := by
  have hlimit : (0xFFFFFFFFFFFFFFFF / nanosecondsPerSecond).toNat = 18446744073 := by
    rw [UInt64.toNat_div, nanosecondsPerSecond_toNat]
    rfl
  rw [gt_iff_lt, UInt64.lt_iff_toNat_lt, hlimit, ← toNat_toUInt64 hs]
  omega

theorem requestedTime_saturated (hs : 0 ≤ seconds) (h : 18446744073 < seconds.toInt) :
    Yields (requestedTime seconds nanoseconds) fun count => count.toNat = 2 ^ 64 - 1 := by
  refine .bind (P := fun count => count = seconds.toUInt64) ⟨rfl, (Yields.unsigned hs).2⟩ ?_
  rintro _ rfl
  rw [if_pos ((saturates_iff hs).mpr h)]
  exact .pure rfl

theorem requestedTime_sum (hs : 0 ≤ seconds) (hn : 0 ≤ nanoseconds)
    (h : seconds.toInt * 10 ^ 9 + nanoseconds.toInt < 2 ^ 64) :
    Yields (requestedTime seconds nanoseconds) fun count =>
      (count.toNat : Int) = seconds.toInt * 10 ^ 9 + nanoseconds.toInt := by
  have hn' : 0 ≤ nanoseconds.toInt := Int64.le_iff_toInt_le.mp hn
  refine .bind (P := fun count => count = seconds.toUInt64) ⟨rfl, (Yields.unsigned hs).2⟩ ?_
  rintro _ rfl
  rw [if_neg (mt (saturates_iff hs).mp (by omega))]
  have hseconds := toNat_toUInt64 hs
  refine .bind (.mul ?_) fun product hproduct => ?_
  · rw [nanosecondsPerSecond_toNat]
    omega
  rw [nanosecondsPerSecond_toNat] at hproduct
  refine .bind (.unsigned hn) fun count hcount => ?_
  refine (Yields.add (by omega)).mono fun sum hsum => ?_
  omega

/-- The sum does not fit though the seconds do: it wraps. -/
theorem requestedTime_wrapped (hs : 0 ≤ seconds) (hn : 0 ≤ nanoseconds)
    (hfits : seconds.toInt ≤ 18446744073) (hlt : nanoseconds.toInt < 10 ^ 9)
    (h : 2 ^ 64 ≤ seconds.toInt * 10 ^ 9 + nanoseconds.toInt) :
    (requestedTime seconds nanoseconds).exact = false ∧
      ((requestedTime seconds nanoseconds).value.toNat : Int) =
        seconds.toInt * 10 ^ 9 + nanoseconds.toInt - 2 ^ 64 := by
  have hseconds := toNat_toUInt64 hs
  have hcount := toNat_toUInt64 hn
  have hproduct : (seconds.toUInt64 * nanosecondsPerSecond).toNat =
      seconds.toUInt64.toNat * 10 ^ 9 := by
    rw [UInt64.toNat_mul, nanosecondsPerSecond_toNat, Nat.mod_eq_of_lt (by omega)]
  have hinexact :
      (add (seconds.toUInt64 * nanosecondsPerSecond) nanoseconds.toUInt64).exact = false := by
    rw [← Bool.not_eq_true, add_exact_iff]
    omega
  rw [requestedTime, bind_value, bind_exact, convert_value,
    if_neg (mt (saturates_iff hs).mp (by omega))]
  constructor
  · rw [bind_exact, mul_value, bind_exact, convert_value, hinexact, Bool.and_false,
      Bool.and_false, Bool.and_false]
  · rw [bind_value, mul_value, bind_value, convert_value, add_value, UInt64.toNat_add, hproduct]
    omega

end

/-- In nanoseconds. -/
def tickPeriod : ℚ := 10 ^ 9 / ticksPerSecond.toNat

/-- What the calls may take: `tx_thread_sleep n` waits for at least `n - 1` full tick periods. -/
def Durations (arguments : List UInt32) (waited : List ℚ) : Prop :=
  List.Forall₂ (fun argument duration => wholeTicks argument * tickPeriod ≤ duration)
    arguments waited

structure NeverEarly (seconds nanoseconds : Int64) : Prop where
  total : ∀ waited, Durations (thisThreadSleepFor seconds nanoseconds).value waited →
    min (seconds.toInt * 10 ^ 9 + nanoseconds.toInt : ℚ) (2 ^ 64 - 1) ≤ waited.sum
  argument : ∀ argument ∈ (thisThreadSleepFor seconds nanoseconds).value,
    1 ≤ argument ∧ argument < waitForever
  exact : (thisThreadSleepFor seconds nanoseconds).exact = true

theorem tickPeriod_eq : tickPeriod = 10 ^ 6 := by
  rw [tickPeriod, ticksPerSecond_toNat]
  norm_num

theorem sum_le {arguments : List UInt32} {waited : List ℚ} (h : Durations arguments waited) :
    ((arguments.map wholeTicks).sum : ℚ) * tickPeriod ≤ waited.sum := by
  induction h with
  | nil => simp
  | cons hle _ ih =>
    rw [List.map_cons, List.sum_cons, List.sum_cons, Nat.cast_add, add_mul]
    exact add_le_add hle ih

theorem shortest (arguments : List UInt32) : ∃ waited, Durations arguments waited ∧
    waited.sum = ((arguments.map wholeTicks).sum : ℚ) * tickPeriod := by
  induction arguments with
  | nil => exact ⟨[], .nil, by simp⟩
  | cons argument arguments ih =>
    obtain ⟨waited, hwaited, hsum⟩ := ih
    refine ⟨wholeTicks argument * tickPeriod :: waited, .cons le_rfl hwaited, ?_⟩
    rw [List.map_cons, List.sum_cons, List.sum_cons, hsum, Nat.cast_add, add_mul]

section
variable {seconds nanoseconds : Int64}

theorem thisThreadSleepFor_nonneg (hs : 0 ≤ seconds) (hn : 0 ≤ nanoseconds) :
    thisThreadSleepFor seconds nanoseconds =
      requestedTime seconds nanoseconds >>= fun count => sleepFor count := by
  rw [thisThreadSleepFor, if_neg (by simp [hs, hn])]

theorem thisThreadSleepFor_waits (hs : 0 ≤ seconds) (hn : 0 ≤ nanoseconds) :
    ∃ ticks : Nat, Waits ticks (thisThreadSleepFor seconds nanoseconds).value ∧
      (requestedTime seconds nanoseconds).value.toNat ≤ ticks * 10 ^ 6 ∧
        ticks * 10 ^ 6 < (requestedTime seconds nanoseconds).value.toNat + 10 ^ 6 := by
  rw [thisThreadSleepFor_nonneg hs hn, bind_value]
  exact (sleepFor_spec _).1

theorem thisThreadSleepFor_exact (hs : 0 ≤ seconds) (hn : 0 ≤ nanoseconds) :
    (thisThreadSleepFor seconds nanoseconds).exact =
      (requestedTime seconds nanoseconds).exact := by
  rw [thisThreadSleepFor_nonneg hs hn, bind_exact, (sleepFor_spec _).2, Bool.and_true]

theorem neverEarly_of_yields (hs : 0 ≤ seconds) (hn : 0 ≤ nanoseconds)
    (h : Yields (requestedTime seconds nanoseconds) fun count =>
      min (seconds.toInt * 10 ^ 9 + nanoseconds.toInt : ℚ) (2 ^ 64 - 1) ≤ count.toNat) :
    NeverEarly seconds nanoseconds := by
  obtain ⟨ticks, hwaits, hle, -⟩ := thisThreadSleepFor_waits hs hn
  refine ⟨fun waited hwaited => ?_, hwaits.argument, ?_⟩
  · have htotal := sum_le hwaited
    rw [hwaits.sum, tickPeriod_eq] at htotal
    have hcount : ((requestedTime seconds nanoseconds).value.toNat : ℚ) ≤ ticks * 10 ^ 6 := by
      exact_mod_cast hle
    exact (h.1.trans hcount).trans htotal
  · rw [thisThreadSleepFor_exact hs hn]
    exact h.2

/-- Sleeping never ends early, and no value wraps, but for a band of inputs less than one second
wide at the edge of the saturation test. There the sleep may end within a second. -/
theorem neverEarly_iff (hs : 0 ≤ seconds) (hn : 0 ≤ nanoseconds) (hlt : nanoseconds < 1000000000) :
    (NeverEarly seconds nanoseconds ↔
      seconds.toInt * 10 ^ 9 + nanoseconds.toInt < 2 ^ 64 ∨ 18446744073 < seconds.toInt) ∧
    (¬ NeverEarly seconds nanoseconds → ∃ waited,
      Durations (thisThreadSleepFor seconds nanoseconds).value waited ∧ waited.sum < 10 ^ 9) := by
  have hlt' : nanoseconds.toInt < 10 ^ 9 := Int64.lt_iff_toInt_lt.mp hlt
  have hfits : seconds.toInt * 10 ^ 9 + nanoseconds.toInt < 2 ^ 64 ∨
      18446744073 < seconds.toInt → NeverEarly seconds nanoseconds := by
    rintro (hsum | hsaturated)
    · refine neverEarly_of_yields hs hn ((requestedTime_sum hs hn hsum).mono fun count hcount => ?_)
      have hcast : (count.toNat : ℚ) = seconds.toInt * 10 ^ 9 + nanoseconds.toInt := by
        exact_mod_cast congrArg (Int.cast : Int → ℚ) hcount
      rw [hcast]
      exact min_le_left _ _
    · refine neverEarly_of_yields hs hn
        ((requestedTime_saturated hs hsaturated).mono fun count hcount => ?_)
      rw [hcount]
      refine (min_le_right _ _).trans_eq ?_
      norm_num
  have hwraps : ¬ (seconds.toInt * 10 ^ 9 + nanoseconds.toInt < 2 ^ 64 ∨
      18446744073 < seconds.toInt) →
      (requestedTime seconds nanoseconds).exact = false ∧
      ((requestedTime seconds nanoseconds).value.toNat : Int) =
        seconds.toInt * 10 ^ 9 + nanoseconds.toInt - 2 ^ 64 := by
    intro h
    rw [not_or, not_lt, not_lt] at h
    exact requestedTime_wrapped hs hn h.2 hlt' h.1
  refine ⟨⟨fun h => ?_, hfits⟩, fun h => ?_⟩
  · by_contra hnot
    have hexact := h.exact
    rw [thisThreadSleepFor_exact hs hn, (hwraps hnot).1] at hexact
    exact Bool.false_ne_true hexact
  · have hnot := mt hfits h
    obtain ⟨ticks, hwaits, -, hlast⟩ := thisThreadSleepFor_waits hs hn
    obtain ⟨waited, hwaited, hsum⟩ := shortest (thisThreadSleepFor seconds nanoseconds).value
    refine ⟨waited, hwaited, ?_⟩
    rw [hsum, hwaits.sum, tickPeriod_eq]
    have hcount := (hwraps hnot).2
    have hshort : ticks * 10 ^ 6 < 10 ^ 9 := by omega
    exact_mod_cast hshort

theorem neverEarly_edge : NeverEarly 18446744073 709551615 :=
  (neverEarly_iff (by decide) (by decide) (by decide)).1.mpr (.inl (by decide))

/-- Asked for 2 ^ 64 nanoseconds, the thread does not sleep at all. -/
theorem edge_wraps : (thisThreadSleepFor 18446744073 709551616).value = [] ∧
    ¬ NeverEarly 18446744073 709551616 := by
  have hnone : (thisThreadSleepFor 18446744073 709551616).value = [] := by
    rw [thisThreadSleepFor_nonneg (by decide) (by decide), bind_value,
      show (requestedTime 18446744073 709551616).value = 0 by decide, sleepFor, if_pos rfl]
    rfl
  refine ⟨hnone, fun h => ?_⟩
  have htotal := h.total [] (by rw [hnone]; exact .nil)
  rw [min_le_iff] at htotal
  have hseconds : (18446744073 : Int64).toInt = 18446744073 := by decide
  have hnanoseconds : (709551616 : Int64).toInt = 709551616 := by decide
  rw [hseconds, hnanoseconds] at htotal
  norm_num at htotal

end

end SimPLCity.SleepFor
