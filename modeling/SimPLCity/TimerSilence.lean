import SimPLCity.TimerWorker

/-! No callback after the timer was stopped, nor before an overflow that was moved, as long as no
call comes between the end of the worker's wait and its callback. -/

namespace SimPLCity.TimerSilence
open LinuxTimer TimerWorker

/-- The worker will invoke a callback without looking at the timer again. -/
def AboutToCall (callback : Option Callback) : Worker → Prop
  | .timedOut => callback ≠ none
  | .fetched (some _) => True
  | _ => False

instance (callback : Option Callback) : (worker : Worker) → Decidable (AboutToCall callback worker)
  | .timedOut => inferInstanceAs (Decidable (callback ≠ none))
  | .fetched (some _) => isTrue trivial
  | .fetched none => isFalse id
  | .ready | .waiting | .timedWait _ | .calling _ | .finished => isFalse id

def Calls (s : System) : Prop := AboutToCall s.timer.periodElapsedCallback s.worker

instance (s : System) : Decidable (Calls s) := inferInstanceAs (Decidable (AboutToCall _ _))

/-- No call stops the timer or moves its overflow while the worker is about to call, and where that
has been done with no callback set, none is set before the worker has looked. -/
def Undisturbed (s : System) : Action → Prop
  | .start | .stop | .stopIt | .setCounter _ | .setAutoReload _ | .setPeriod _ => ¬ Calls s
  | .setPeriodElapsedCallback (some _) => s.worker = .timedOut → s.stopped = false ∧ s.due ≤ s.now
  | _ => True

instance (s : System) : (action : Action) → Decidable (Undisturbed s action)
  | .start | .stop | .stopIt | .setCounter _ | .setAutoReload _ | .setPeriod _ =>
    inferInstanceAs (Decidable (¬ _))
  | .setPeriodElapsedCallback (some _) => inferInstanceAs (Decidable (_ → _))
  | .elapse _ | .startIt | .setPeriodElapsedCallback none | .shutDown | .loop _ | .wake | .expire
  | .fetch | .invoke | .callbackReturn => isTrue trivial

/-- A callback at the time is in order. -/
structure Allowed (s : System) (time : Nat) : Prop where
  running : s.timer.running = true
  started : s.stopped = false
  due : s.due ≤ time

/-- The first overflow of a running timer is not before the one that was set. -/
def Counts (s : System) : Prop :=
  ∃ since ≤ s.now, s.timer.startedAtNanoseconds = UInt64.ofNat since ∧
    (s.timer.running = true → s.due ≤ s.timer.firstOverflow since)

structure Inv (s : System) : Prop where
  counts : Counts s
  enabled : s.timer.interruptEnabled = true → s.timer.running = true ∧ s.stopped = false
  running : s.stopped = false → s.timer.running = true
  waits : ∀ deadline, s.worker = .timedWait deadline → Allowed s deadline
  calls : Calls s → Allowed s s.now

section
variable {s s' : System}

theorem inv_initial (configuration : Configuration) (now : Nat) :
    Inv (initial configuration now) where
  counts := ⟨now, Nat.le_refl _, rfl, nofun⟩
  enabled := nofun
  running := nofun
  waits := nofun
  calls := False.elim

theorem Allowed.congr {time time' : Nat} (h : Allowed s time)
    (hrunning : s'.timer.running = s.timer.running) (hstopped : s'.stopped = s.stopped)
    (hdue : s'.due = s.due) (htime : time ≤ time') : Allowed s' time' :=
  ⟨hrunning.trans h.running, hstopped.trans h.started, hdue ▸ h.due.trans htime⟩

theorem notified_ne_timedWait (worker : Worker) (deadline : Nat) :
    worker.notified ≠ .timedWait deadline := by
  cases worker <;> nofun

theorem aboutToCall_notified {callback : Option Callback} {worker : Worker} :
    AboutToCall callback worker.notified ↔ AboutToCall callback worker := by
  cases worker <;> rfl

theorem inv_notified (hworker : s'.worker = s.worker.notified)
    (hcallback : s'.timer.periodElapsedCallback = s.timer.periodElapsedCallback) (hcounts : Counts s')
    (henabled : s'.timer.interruptEnabled = true → s'.timer.running = true ∧ s'.stopped = false)
    (hrunning : s'.stopped = false → s'.timer.running = true)
    (hcalls : Calls s → Allowed s' s'.now) : Inv s' where
  counts := hcounts
  enabled := henabled
  running := hrunning
  waits := fun _ h => absurd (hworker ▸ h) (notified_ne_timedWait _ _)
  calls := fun h => by
    unfold Calls at h
    rw [hworker, hcallback] at h
    exact hcalls (aboutToCall_notified.mp h)

theorem inv_worker (h : Inv s) {worker : Worker}
    (hwaits : ∀ deadline, worker = .timedWait deadline → Allowed s deadline)
    (hcalls : AboutToCall s.timer.periodElapsedCallback worker → Allowed s s.now) :
    Inv { s with worker } where
  counts := h.counts
  enabled := h.enabled
  running := h.running
  waits := fun deadline hd => (hwaits deadline hd).congr rfl rfl rfl (Nat.le_refl _)
  calls := fun hc => (hcalls hc).congr rfl rfl rfl (Nat.le_refl _)

theorem inv_elapse (h : Inv s) (nanoseconds : Nat) :
    Inv { s with now := s.now + nanoseconds } := by
  obtain ⟨since, hsince, hcounts⟩ := h.counts
  refine ⟨⟨since, Nat.le_add_right_of_le hsince, hcounts⟩, h.enabled, h.running,
    fun deadline hd => ?_, fun hc => ?_⟩
  · exact (h.waits deadline hd).congr rfl rfl rfl (Nat.le_refl _)
  · exact (h.calls hc).congr rfl rfl rfl (Nat.le_add_right ..)

theorem inv_started (h : Inv s) {enabled : Bool}
    (hcalls : Calls s → enabled = true) :
    Inv (s.started (!enabled) (s.timer.startWith enabled s.clock)) := by
  cases hm : s.timer.startWith enabled s.clock with
  | none => exact h
  | some m =>
    obtain ⟨since, hsince, hat, hdue⟩ := h.counts
    have hm' := hm
    simp only [Timer.startWith, Option.ite_none_left_eq_some, Option.some.injEq] at hm'
    have hrunning : m.running = true := by rw [← hm'.2]
    have henabled : m.interruptEnabled = enabled := by rw [← hm'.2]
    have hstarted : m.startedAtNanoseconds = s.clock := by rw [← hm'.2]
    have hcallback : m.periodElapsedCallback = s.timer.periodElapsedCallback := by
      rw [← hm'.2]
      exact Timer.captureCounter_periodElapsedCallback ..
    refine inv_notified rfl hcallback ⟨s.now, Nat.le_refl _, hstarted, fun _ => ?_⟩ (fun he => ?_)
      (fun _ => hrunning) fun hc => ⟨hrunning, by simp [System.started, hcalls hc], ?_⟩
    · dsimp only [System.started, System.changed]
      split
      · rename_i hr
        exact (hdue hr).trans (Timer.firstOverflow_startWith hm hr hat hsince)
      · exact Nat.le_refl _
    · refine ⟨hrunning, ?_⟩
      have htrue : enabled = true := henabled.symm.trans he
      simp [System.started, htrue]
    · have hallowed := h.calls hc
      simp only [System.started, System.changed, if_pos hallowed.running]
      exact hallowed.due

theorem inv_stopped (h : Inv s) (hc : ¬ Calls s) :
    Inv { s.changed (s.timer.stop s.clock) with stopped := true } := by
  obtain ⟨since, hsince, hat, -⟩ := h.counts
  refine inv_notified (s := s) rfl (Timer.captureCounter_periodElapsedCallback ..)
    ⟨since, hsince, ?_, nofun⟩ nofun nofun (absurd · hc)
  exact (Timer.captureCounter_startedAtNanoseconds ..).trans hat

theorem inv_moved (h : Inv s) (hc : ¬ Calls s) {m : Timer}
    (hstarted : m.startedAtNanoseconds = s.clock) (hrunning : m.running = s.timer.running)
    (henabled : m.interruptEnabled = s.timer.interruptEnabled)
    (hcallback : m.periodElapsedCallback = s.timer.periodElapsedCallback) : Inv (s.moved m) := by
  refine inv_notified (s := s) rfl hcallback
    ⟨s.now, Nat.le_refl _, hstarted, fun _ => Nat.le_refl _⟩ (fun he => ?_)
    (fun hs => hrunning.trans (h.running hs)) (absurd · hc)
  obtain ⟨hr, hs⟩ := h.enabled (henabled ▸ he)
  exact ⟨hrunning ▸ hr, hs⟩

theorem inv_callback (h : Inv s) {callback : Option Callback}
    (hundisturbed : Undisturbed s (.setPeriodElapsedCallback callback)) :
    Inv { s with timer := s.timer.setPeriodElapsedCallback callback } := by
  refine ⟨h.counts, h.enabled, h.running, fun deadline hd => ?_, fun hc => ?_⟩
  · exact (h.waits deadline hd).congr rfl rfl rfl (Nat.le_refl _)
  · suffices hallowed : Allowed s s.now from hallowed.congr rfl rfl rfl (Nat.le_refl _)
    cases hworker : s.worker with
    | timedOut =>
      cases callback with
      | none =>
        simp only [Calls, hworker] at hc
        exact absurd rfl hc
      | some c =>
        obtain ⟨hstarted, hdue⟩ := hundisturbed hworker
        exact ⟨h.running hstarted, hstarted, hdue⟩
    | fetched fetched =>
      simp only [Calls, hworker] at hc
      refine h.calls ?_
      simp only [Calls, hworker]
      cases fetched with
      | none => exact hc
      | some _ => trivial
    | _ =>
      simp only [Calls, hworker] at hc
      exact hc.elim

theorem inv_loop (h : Inv s) (lag : Nat) : Inv (s.loop lag) := by
  unfold System.loop
  split
  · exact inv_worker h nofun False.elim
  · split
    · exact inv_worker h nofun False.elim
    · rename_i hon
      simp only [Bool.or_eq_true, Bool.not_eq_true', not_or, Bool.not_eq_false] at hon
      obtain ⟨hrunning, henabled⟩ := hon
      obtain ⟨since, hsince, hat, hdue⟩ := h.counts
      have hwait := s.timer.firstOverflow_le hrunning hat hsince
      have hdue := hdue hrunning
      refine inv_worker (inv_elapse h lag) (fun deadline hd => ?_) False.elim
      cases hd
      refine ⟨hrunning, (h.enabled henabled).2, ?_⟩
      change s.due ≤ s.now + lag + (s.timer.nanosecondsUntilOverflow (UInt64.ofNat s.now)).toNat
      omega

theorem inv_expire (h : Inv s) (hs : step s .expire = some s') : Inv s' := by
  simp only [step] at hs
  split at hs
  · rename_i deadline hworker
    simp only [Option.ite_none_right_eq_some, Option.some.injEq] at hs
    obtain ⟨hpassed, rfl⟩ := hs
    obtain ⟨hrunning, hstarted, hdue⟩ := h.waits deadline hworker
    exact inv_worker h nofun fun _ => ⟨hrunning, hstarted, hdue.trans hpassed⟩
  · cases hs

theorem inv_fetch (h : Inv s) (hs : step s .fetch = some s') : Inv s' := by
  simp only [step, Option.ite_none_right_eq_some, Option.some.injEq] at hs
  obtain ⟨hworker, rfl⟩ := hs
  refine inv_worker h nofun fun hc => h.calls ?_
  unfold Calls
  rw [hworker]
  intro hnone
  rw [hnone] at hc
  exact hc

theorem inv_invoke (h : Inv s) (hs : step s .invoke = some s') : Inv s' := by
  simp only [step] at hs
  split at hs
  · cases hs
    exact inv_worker h nofun False.elim
  · cases hs
    exact inv_worker h nofun False.elim
  · cases hs

theorem inv_callbackReturn (h : Inv s) (hs : step s .callbackReturn = some s') : Inv s' := by
  simp only [step] at hs
  split at hs
  · cases hs
    exact inv_worker h nofun False.elim
  · cases hs

theorem inv_step (h : Inv s) {action : Action} (hundisturbed : Undisturbed s action)
    (hs : step s action = some s') : Inv s' := by
  cases action with
  | elapse nanoseconds =>
    cases hs
    exact inv_elapse h nanoseconds
  | start =>
    cases hs
    exact inv_started h fun hc => absurd hc hundisturbed
  | stop =>
    cases hs
    exact inv_stopped h hundisturbed
  | startIt =>
    cases hs
    exact inv_started h fun _ => rfl
  | stopIt =>
    cases hs
    exact inv_stopped h hundisturbed
  | setCounter value =>
    cases hs
    exact inv_moved h hundisturbed rfl rfl rfl rfl
  | setAutoReload value =>
    cases hs
    exact inv_moved h hundisturbed rfl (Timer.captureCounter_running ..)
      (Timer.captureCounter_interruptEnabled ..) (Timer.captureCounter_periodElapsedCallback ..)
  | setPeriod duration =>
    cases hs
    exact inv_moved h hundisturbed rfl rfl rfl rfl
  | setPeriodElapsedCallback callback =>
    cases hs
    exact inv_callback h hundisturbed
  | shutDown =>
    cases hs
    exact inv_notified (s := s) rfl rfl h.counts h.enabled h.running
      fun hc => (h.calls hc).congr rfl rfl rfl (Nat.le_refl _)
  | loop lag =>
    simp only [step, Option.ite_none_right_eq_some, Option.some.injEq] at hs
    obtain ⟨-, rfl⟩ := hs
    exact inv_loop h lag
  | wake =>
    cases hs
    exact inv_worker h (fun deadline hd => absurd hd (notified_ne_timedWait _ _))
      fun hc => h.calls (aboutToCall_notified.mp hc)
  | expire => exact inv_expire h hs
  | fetch => exact inv_fetch h hs
  | invoke => exact inv_invoke h hs
  | callbackReturn => exact inv_callbackReturn h hs

/-- A callback is invoked only when `startIt` was the last to start or stop the timer, and not
before the overflow that was set. -/
def CallsInTime (s : System) : Prop :=
  ∀ s' callback, step s .invoke = some s' → s'.worker = .calling callback →
    s.stopped = false ∧ s.due ≤ s.now

theorem timer_calls_in_time {configuration : Configuration} {now : Nat}
    (h : Runs.Reached step Undisturbed (initial configuration now) s) : CallsInTime s := by
  have hinv : Inv s := h.invariant (inv_initial configuration now)
    fun _ _ _ hinv hundisturbed hs => inv_step hinv hundisturbed hs
  intro s' callback hs hcalling
  simp only [step] at hs
  split at hs
  · rename_i c hworker
    have hallowed := hinv.calls (by simp only [Calls, hworker, AboutToCall])
    exact ⟨hallowed.started, hallowed.due⟩
  · cases hs
    cases hcalling
  · cases hs

end

def millisecondTimer : Configuration := ⟨1000, 0, 0⟩

/-- A timer of ticks of a millisecond, whose period is changed while it runs. -/
def calledOnce : List Action :=
  [.setPeriodElapsedCallback (some 7), .startIt, .loop 5, .elapse 600000, .setPeriod 2000000,
    .loop 5, .elapse 2000005, .expire, .fetch]

theorem timer_calls_in_time_once : ∃ s,
    Runs.perform step (initial millisecondTimer 0) calledOnce = some s ∧
      s.worker = .fetched (some 7) ∧ s.due = 2600005 ∧ s.now = 2600015 ∧ CallsInTime s := by
  have hsome : (Runs.perform step (initial millisecondTimer 0) calledOnce).isSome := by
    decide +kernel
  obtain ⟨s, hs⟩ := Option.isSome_iff_exists.mp hsome
  have hundisturbed : Runs.Performs step Undisturbed (initial millisecondTimer 0)
      calledOnce := by decide +kernel
  have hstate : (Runs.perform step (initial millisecondTimer 0) calledOnce).map
      (fun s => (s.worker, s.due, s.now)) = some (.fetched (some 7), 2600005, 2600015) := by
    decide +kernel
  rw [hs, Option.map_some, Option.some.injEq] at hstate
  simp only [Prod.mk.injEq] at hstate
  obtain ⟨hworker, hdue, hnow⟩ := hstate
  exact ⟨s, hs, hworker, hdue, hnow, timer_calls_in_time (Runs.reached_of_perform hs hundisturbed)⟩

/-- The timer is stopped after the wait has timed out and before the worker has the mutex. -/
def stoppedInWindow : List Action :=
  [.setPeriodElapsedCallback (some 7), .startIt, .loop 0, .elapse 1000000, .expire, .stop, .fetch]

theorem timer_not_calls_in_time : ¬ ∀ configuration now s,
    Runs.Reached step (fun _ _ => True) (initial configuration now) s → CallsInTime s := by
  intro hall
  have hsome : (Runs.perform step (initial millisecondTimer 0) stoppedInWindow).isSome := by
    decide +kernel
  obtain ⟨s, hs⟩ := Option.isSome_iff_exists.mp hsome
  have hcalls := hall millisecondTimer 0 s
    (Runs.reached_of_perform hs (Runs.performs_always (fun _ _ => trivial) _))
  have hstate : (Runs.perform step (initial millisecondTimer 0) stoppedInWindow).map
      (fun s => (s.worker, s.stopped)) = some (.fetched (some 7), true) := by
    decide +kernel
  rw [hs, Option.map_some, Option.some.injEq] at hstate
  obtain ⟨hworker, hstopped⟩ := Prod.mk.inj hstate
  have hinvoke : step s .invoke = some { s with worker := .calling 7 } := by
    rw [step, hworker]
  have hstarted := (hcalls _ 7 hinvoke rfl).1
  rw [hstopped] at hstarted
  cases hstarted

end SimPLCity.TimerSilence
