import SimPLCity.LinuxTimer
import Mathlib.Algebra.BigOperators.Ring.List
import Mathlib.Data.Nat.ModEq

/-! Calls of `start` on a timer that is running. -/

namespace SimPLCity.RestartedTimer
open LinuxTimer

theorem sum_div (l : List Nat) {k : Nat} (hk : 0 < k) :
    l.sum / k = (l.map (· / k)).sum + (l.map (· % k)).sum / k := by
  have hsplit : l.sum = k * (l.map (· / k)).sum + (l.map (· % k)).sum := by
    induction l with
    | nil => rfl
    | cons a l ih =>
      simp only [List.sum_cons, List.map_cons]
      have ha := Nat.div_add_mod a k
      rw [Nat.mul_add]
      omega
  rw [hsplit, Nat.mul_add_div hk]

theorem add_mod_eq_iff (c a : Nat) {p : Nat} : c % p = (c + a) % p ↔ p ∣ a := by
  change Nat.ModEq p c (c + a) ↔ p ∣ a
  rw [Nat.modEq_iff_dvd' (Nat.le_add_right c a), Nat.add_sub_cancel_left]

def getCounter (m : Timer) (now : UInt64) : Tick :=
  if m.running then m.counterAt now else m.counter

/-- A call of `start`, which leaves the timer alone when it fails. -/
def restart (m : Timer) (now : UInt64) : Timer := (m.start now).getD m

def restarts (m : Timer) (times : List UInt64) : Timer := times.foldl restart m

/-- The nanoseconds between each two of the times. -/
def intervals (since : UInt64) : List UInt64 → List Nat
  | [] => []
  | time :: times => (time.toNat - since.toNat) :: intervals time times

/-- The fractions of a tick that the calls and the reading cut off, in billionths of a tick. -/
def lostFractions (frequency : Nat) (since : UInt64) (times : List UInt64) : Nat :=
  ((intervals since times).map fun nanoseconds => nanoseconds * frequency % 1000000000).sum

def wholeTicks (frequency : Nat) (since : UInt64) (times : List UInt64) : Nat :=
  ((intervals since times).map fun nanoseconds => nanoseconds * frequency / 1000000000).sum

theorem intervals_sum {since now : UInt64} {times : List UInt64}
    (h : List.IsChain (· ≤ ·) (since :: (times ++ [now]))) :
    since ≤ now ∧ (intervals since (times ++ [now])).sum = now.toNat - since.toNat := by
  induction times generalizing since with
  | nil =>
    rw [List.nil_append, List.isChain_cons_cons] at h
    exact ⟨h.1, by simp [intervals]⟩
  | cons time times ih =>
    rw [List.cons_append, List.isChain_cons_cons] at h
    obtain ⟨hle, hsum⟩ := ih h.2
    have hfirst := UInt64.le_iff_toNat_le.mp h.1
    have hrest := UInt64.le_iff_toNat_le.mp hle
    rw [List.cons_append, intervals, List.sum_cons, hsum]
    exact ⟨UInt64.le_trans h.1 hle, by omega⟩

/-- The ticks of the whole time are those of the intervals and what these have cut off. -/
theorem elapsed_ticks {since now : UInt64} {times : List UInt64} (frequency : Nat)
    (h : List.IsChain (· ≤ ·) (since :: (times ++ [now]))) :
    (now - since).toNat * frequency / 1000000000 =
      wholeTicks frequency since (times ++ [now]) +
        lostFractions frequency since (times ++ [now]) / 1000000000 := by
  obtain ⟨hle, hsum⟩ := intervals_sum h
  have hparts := sum_div ((intervals since (times ++ [now])).map (· * frequency))
    (show 0 < 1000000000 by decide)
  rw [List.sum_map_mul_right, List.map_id', List.map_map, List.map_map] at hparts
  rw [UInt64.toNat_sub_of_le _ _ hle, ← hsum]
  exact hparts

section
variable {m : Timer}

theorem restart_running (time : UInt64) (h : m.running = true) :
    (restart m time).running = true := by
  unfold restart Timer.start Timer.startWith
  split <;> simp [h]

@[simp] theorem restart_period (time : UInt64) : (restart m time).period = m.period := by
  unfold restart Timer.start Timer.startWith Timer.captureCounter Timer.period
  split
  · rfl
  · split <;> rfl

@[simp] theorem restart_frequency (time : UInt64) :
    (restart m time).frequency = m.frequency := by
  unfold restart Timer.start Timer.startWith Timer.captureCounter Timer.frequency
    Timer.tickFrequencyHz
  split
  · rfl
  · split <;> rfl

theorem restart_counter (time : UInt64) (hrunning : m.running = true) (hf : m.frequency ≠ 0) :
    (restart m time).startedAtNanoseconds = time ∧
      (restart m time).counter = m.counterAt time := by
  have hnonzero : m.tickFrequencyHz ≠ 0 := fun h0 => hf (UInt32.toNat_inj.mpr h0)
  unfold restart Timer.start Timer.startWith
  rw [if_neg hnonzero]
  unfold Timer.captureCounter
  rw [if_pos hrunning]
  exact ⟨rfl, rfl⟩

theorem restarts_stopped (times : List UInt64) (hf : m.frequency = 0) : restarts m times = m := by
  have hzero : m.tickFrequencyHz = 0 := UInt32.toNat_inj.mp hf
  have hcall : ∀ time, restart m time = m := by
    intro time
    unfold restart Timer.start Timer.startWith
    rw [if_pos hzero, Option.getD_none]
  induction times with
  | nil => rfl
  | cons time times ih =>
    unfold restarts at ih ⊢
    rw [List.foldl_cons, hcall, ih]

theorem restarts_counter {now : UInt64} {times : List UInt64} (hrunning : m.running = true)
    (hf : m.frequency ≠ 0)
    (h : List.IsChain (· ≤ ·) (m.startedAtNanoseconds :: (times ++ [now]))) :
    (restarts m times).running = true ∧ ((restarts m times).counterAt now).toNat =
      (m.counter.toNat + wholeTicks m.frequency m.startedAtNanoseconds (times ++ [now])) %
        m.period := by
  induction times generalizing m with
  | nil =>
    rw [List.nil_append, List.isChain_cons_cons] at h
    refine ⟨hrunning, ?_⟩
    change (m.counterAt now).toNat = _
    rw [Timer.counterAt_toNat m now hf, UInt64.toNat_sub_of_le _ _ h.1]
    simp [wholeTicks, intervals]
  | cons time times ih =>
    rw [List.cons_append, List.isChain_cons_cons] at h
    obtain ⟨hstarted, hcounter⟩ := restart_counter time hrunning hf
    have hrest := ih (restart_running time hrunning) (by rwa [restart_frequency])
      (by rw [hstarted]; exact h.2)
    rw [hstarted, hcounter, restart_frequency, restart_period, Timer.counterAt_toNat m time hf,
      UInt64.toNat_sub_of_le _ _ h.1, Nat.mod_add_mod] at hrest
    rw [List.cons_append, wholeTicks, intervals, List.map_cons, List.sum_cons, ← Nat.add_assoc]
    exact hrest

end

theorem restarts_undisturbed_iff (m : Timer) (times : List UInt64) (now : UInt64)
    (hrunning : m.running = true)
    (h : List.IsChain (· ≤ ·) (m.startedAtNanoseconds :: (times ++ [now]))) :
    getCounter (restarts m times) now = getCounter m now ↔
      m.period ∣ lostFractions m.frequency m.startedAtNanoseconds (times ++ [now]) / 1000000000 := by
  by_cases hf : m.frequency = 0
  · rw [restarts_stopped times hf, hf]
    simp [lostFractions]
  · obtain ⟨hstill, hcounter⟩ := restarts_counter hrunning hf h
    unfold getCounter
    rw [if_pos hstill, if_pos hrunning, ← UInt32.toNat_inj, hcounter,
      Timer.counterAt_toNat m now hf, elapsed_ticks m.frequency h, ← Nat.add_assoc]
    exact add_mod_eq_iff ..

/-- A timer of a thousand ticks a second that has been started. -/
def thousandHertz : Timer := restart (Timer.create ⟨1000000, 999, 0xFFFFFFFF⟩ 0) 0

theorem restarts_undisturbed_wholeTicks :
    getCounter (restarts thousandHertz [1000000, 1000000, 3000000]) 3500000 =
      getCounter thousandHertz 3500000 :=
  (restarts_undisturbed_iff thousandHertz [1000000, 1000000, 3000000] 3500000 (by decide)
    (by decide)).mpr (by decide)

/-- Calls every half tick stop the counter. -/
theorem restarts_stop_counter :
    ¬ ∀ (m : Timer) (times : List UInt64) (now : UInt64), m.running = true →
      List.IsChain (· ≤ ·) (m.startedAtNanoseconds :: (times ++ [now])) →
        getCounter (restarts m times) now = getCounter m now := by
  intro h
  have hsame := h thousandHertz [500000] 1000000 (by decide) (by decide)
  revert hsame
  decide

end SimPLCity.RestartedTimer
