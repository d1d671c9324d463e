import SimPLCity.OneTime
import Mathlib.Logic.Function.Basic

/-! The guards of function-local statics. Threads enter guards, run their initializers in any
nesting, and end them normally or with an exception. Every step is one access to a guard byte, one
ThreadX call, or the beginning or the end of an initializer; all calls are made in thread context,
so that the mutex is needed. -/

namespace SimPLCity.StaticGuards
open OneTime

/-- Where a thread is. `fatal` is the recursive initialization, `mutexFailure` a ThreadX call that
failed; neither returns. -/
inductive Place (γ : Type*)
  | user
  -- `__cxa_guard_acquire`
  | acquire (g : γ) | lock (g : γ) | locked (g : γ) | progress (g : γ) | mark (g : γ) | leave (g : γ)
  -- `__cxa_guard_release`, `__cxa_guard_abort` and the `release_guard_mutex` of both
  | release (g : γ) | publish (g : γ) | abort (g : γ) | unlock
  | fatal (g : γ) | mutexFailure
deriving DecidableEq, Repr

/-- The two bytes of each guard, the recursive mutex, and for each thread its place and the guards
whose initializers it is running, innermost first. The trace is for the proofs only. -/
structure State (τ γ : Type*) where
  initialized : γ → Bool := fun _ => false
  inProgress : γ → Bool := fun _ => false
  owner : Option τ := none
  count : Nat := 0
  place : τ → Place γ := fun _ => .user
  initializers : τ → List γ := fun _ => []
  trace : List (Event τ γ) := []

inductive Action (τ γ : Type*)
  | enter (t : τ) (g : γ)
  | acquire (t : τ)
  | lockFails (t : τ)
  | finish (t : τ)
  | throw (t : τ)
  | release (t : τ)
deriving DecidableEq, Repr

variable {τ γ : Type*} [DecidableEq τ] [DecidableEq γ]

def State.go (s : State τ γ) (t : τ) (p : Place γ) : State τ γ :=
  { s with place := Function.update s.place t p }

def State.record (s : State τ γ) (e : Event τ γ) : State τ γ := { s with trace := s.trace ++ [e] }

def State.setInProgress (s : State τ γ) (g : γ) (value : Bool) : State τ γ :=
  { s with inProgress := Function.update s.inProgress g value }

def State.setInitializers (s : State τ γ) (t : τ) (gs : List γ) : State τ γ :=
  { s with initializers := Function.update s.initializers t gs }

/-- Waits forever: without the mutex the step is not possible yet. -/
def txMutexGet (s : State τ γ) (t : τ) : Option (State τ γ) :=
  if s.owner = none ∨ s.owner = some t then some { s with owner := some t, count := s.count + 1 }
  else none

def txMutexPut (s : State τ γ) (t : τ) : Option (State τ γ) :=
  if s.owner = some t then
    some { s with owner := if s.count = 1 then none else some t, count := s.count - 1 }
  else none

/-- The next step of `__cxa_guard_acquire`. -/
def cxaGuardAcquire (s : State τ γ) (t : τ) : Option (State τ γ) :=
  match s.place t with
  | .acquire g => some (if s.initialized g then (s.record (.pass t g)).go t .user else s.go t (.lock g))
  | .lock g => (txMutexGet s t).map fun s => s.go t (.locked g)
  | .locked g => some (s.go t (if s.initialized g then .leave g else .progress g))
  | .leave g =>
    match txMutexPut s t with
    | some s => some ((s.record (.pass t g)).go t .user)
    | none => some (s.go t .mutexFailure)
  | .progress g =>
    some (if s.inProgress g then (s.record (.reenter t g)).go t (.fatal g) else s.go t (.mark g))
  | .mark g =>
    some ((((s.setInProgress g true).setInitializers t (g :: s.initializers t)).record
      (.start t g)).go t .user)
  | _ => none

/-- The wait for the mutex is aborted. -/
def lockFails (s : State τ γ) (t : τ) : Option (State τ γ) :=
  match s.place t with
  | .lock _ => some (s.go t .mutexFailure)
  | _ => none

/-- The innermost initializer returns, or ends with an exception. -/
def endInitializer (s : State τ γ) (t : τ) (threw : Bool) : Option (State τ γ) :=
  match s.place t, s.initializers t with
  | .user, g :: gs =>
    some (((s.setInitializers t gs).record (if threw then .abort t g else .complete t g)).go t
      (if threw then .abort g else .release g))
  | _, _ => none

/-- The next step of `__cxa_guard_release` or `__cxa_guard_abort`. -/
def cxaGuardRelease (s : State τ γ) (t : τ) : Option (State τ γ) :=
  match s.place t with
  | .release g => some ((s.setInProgress g false).go t (.publish g))
  | .publish g => some ({ s with initialized := Function.update s.initialized g true }.go t .unlock)
  | .abort g => some ((s.setInProgress g false).go t .unlock)
  | .unlock =>
    match txMutexPut s t with
    | some s => some (s.go t .user)
    | none => some (s.go t .mutexFailure)
  | _ => none

def step (s : State τ γ) : Action τ γ → Option (State τ γ)
  | .enter t g => if s.place t = .user then some (s.go t (.acquire g)) else none
  | .acquire t => cxaGuardAcquire s t
  | .lockFails t => lockFails s t
  | .finish t => endInitializer s t false
  | .throw t => endInitializer s t true
  | .release t => cxaGuardRelease s t

end SimPLCity.StaticGuards
