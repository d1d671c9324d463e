import SimPLCity.LinuxTimer
import SimPLCity.Runs

/-! The worker thread of the timer and the calls of other threads. A step is a section in which the
mutex is held, what the worker does without it, or the end of one of its waits. -/

namespace SimPLCity.TimerWorker
open LinuxTimer

/-- Where the worker is. It needs the mutex to go on from `ready` and from `timedOut`. -/
inductive Worker
  | ready
  | waiting
  | timedWait (deadline : Nat)
  | timedOut
  | fetched (callback : Option Callback)
  | calling (callback : Callback)
  | finished
deriving DecidableEq, Repr

/-- After `pthread_cond_broadcast`. A wait that has timed out is no longer one. -/
def Worker.notified : Worker → Worker
  | .waiting => .ready
  | .timedWait _ => .ready
  | worker => worker

/-- `now` is the monotonic clock in nanoseconds. The last two are for the proofs only: there was no
`startIt` since the last `stop` or `start`, and the overflow that was set last, by the start of a
stopped timer or by a call that moves the overflow. -/
structure System where
  timer : Timer
  worker : Worker := .ready
  now : Nat
  stopped : Bool := true
  due : Nat := 0
deriving DecidableEq, Repr

def initial (configuration : Configuration) (now : Nat) : System where
  timer := .create configuration (UInt64.ofNat now)
  now := now

/-- `monotonic_nanoseconds`. -/
def System.clock (s : System) : UInt64 := UInt64.ofNat s.now

/-- A call that has changed the timer and notified the worker. -/
def System.changed (s : System) (timer : Timer) : System :=
  { s with timer, worker := s.worker.notified }

/-- A call that moves the next overflow. -/
def System.moved (s : System) (timer : Timer) : System :=
  { s.changed timer with due := timer.firstOverflow s.now }

def System.started (s : System) (stopped : Bool) : Option Timer → System
  | none => s
  | some timer =>
    { s.changed timer with
      stopped
      due := if s.timer.running then s.due else timer.firstOverflow s.now }

/-- The worker from its taking the mutex to the next wait. It reads the clock twice, the second time
`lag` later. -/
def System.loop (s : System) (lag : Nat) : System :=
  if s.timer.shuttingDown then { s with worker := .finished }
  else if !s.timer.running || !s.timer.interruptEnabled then { s with worker := .waiting }
  else
    let delay := s.timer.nanosecondsUntilOverflow s.clock
    let now := s.now + lag
    { s with worker := .timedWait (now + delay.toNat), now }

inductive Action
  | elapse (nanoseconds : Nat)
  | start
  | stop
  | startIt
  | stopIt
  | setCounter (value : Tick)
  | setAutoReload (value : Tick)
  | setPeriod (duration : Int64)
  | setPeriodElapsedCallback (callback : Option Callback)
  | shutDown
  | loop (lag : Nat)
  | wake
  | expire
  | fetch
  | invoke
  | callbackReturn
deriving DecidableEq, Repr

def step (s : System) : Action → Option System
  | .elapse nanoseconds => some { s with now := s.now + nanoseconds }
  | .start => some (s.started true (s.timer.start s.clock))
  | .startIt => some (s.started false (s.timer.startIt s.clock))
  | .stop => some { s.changed (s.timer.stop s.clock) with stopped := true }
  | .stopIt => some { s.changed (s.timer.stopIt s.clock) with stopped := true }
  | .setCounter value => some (s.moved (s.timer.setCounter value s.clock))
  | .setAutoReload value => some (s.moved (s.timer.setAutoReload value s.clock))
  | .setPeriod duration => some (s.moved (s.timer.setPeriod duration s.clock))
  | .setPeriodElapsedCallback callback =>
    some { s with timer := s.timer.setPeriodElapsedCallback callback }
  | .shutDown => some (s.changed { s.timer with shuttingDown := true })
  | .loop lag => if s.worker = .ready then some (s.loop lag) else none
  | .wake => some { s with worker := s.worker.notified }
  | .expire =>
    match s.worker with
    | .timedWait deadline => if deadline ≤ s.now then some { s with worker := .timedOut } else none
    | _ => none
  | .fetch =>
    if s.worker = .timedOut then some { s with worker := .fetched s.timer.periodElapsedCallback }
    else none
  | .invoke =>
    match s.worker with
    | .fetched (some callback) => some { s with worker := .calling callback }
    | .fetched none => some { s with worker := .ready }
    | _ => none
  | .callbackReturn =>
    match s.worker with
    | .calling _ => some { s with worker := .ready }
    | _ => none

end SimPLCity.TimerWorker
