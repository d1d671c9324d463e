import SimPLCity.OneTime
import Mathlib.Logic.Function.Basic

/-! `once` on any number of handles. The functions may throw and may call `once` again. Every step
is one ThreadX call, one access to the state of a handle with the initialization mutex, or the end
of a function; the mutex is ThreadX's, so a wait for it is a step that is not possible yet. -/

namespace SimPLCity.OnceHandles

/-- Where a thread is; the places are in the order of the code. -/
inductive Place (η ε : Type*)
  | user
  -- the loop
  | lock (h : η) | test (h : η) | putDone (h : η) | putStart (h : η) | putWait (h : η) | sleep (h : η)
  -- the function has returned
  | lockDone (h : η) | setDone (h : η) | putReturn (h : η)
  -- the function has thrown
  | lockThrow (h : η) (e : ε) | setThrow (h : η) (e : ε) | putThrow (h : η) (e : ε)
  | rethrow (h : η) (e : ε)
deriving DecidableEq, Repr

/-- A function starts, completes or throws; `once` returns 0 or lets an exception through. -/
inductive OnceEvent (τ η ε : Type*)
  | start (t : τ) (h : η)
  | complete (t : τ) (h : η)
  | threw (t : τ) (h : η) (e : ε)
  | returned (t : τ) (h : η)
  | raised (t : τ) (h : η) (e : ε)
deriving DecidableEq, Repr

/-- The state of each handle, the initialization mutex, and for each thread its place and the
handles whose functions it is running, innermost first. The trace is for the proofs only. -/
structure State (τ η ε : Type*) where
  state : η → Nat := fun _ => 0
  mutex : Option τ := none
  place : τ → Place η ε := fun _ => .user
  functions : τ → List η := fun _ => []
  trace : List (OnceEvent τ η ε) := []

inductive Action (τ η ε : Type*)
  | call (t : τ) (h : η)
  | once (t : τ)
  | finish (t : τ)
  | throw (t : τ) (e : ε)
deriving DecidableEq, Repr

variable {τ η ε : Type*} [DecidableEq τ] [DecidableEq η]

def State.go (s : State τ η ε) (t : τ) (p : Place η ε) : State τ η ε :=
  { s with place := Function.update s.place t p }

def State.record (s : State τ η ε) (e : OnceEvent τ η ε) : State τ η ε :=
  { s with trace := s.trace ++ [e] }

def State.setState (s : State τ η ε) (h : η) (value : Nat) : State τ η ε :=
  { s with state := Function.update s.state h value }

def State.setFunctions (s : State τ η ε) (t : τ) (hs : List η) : State τ η ε :=
  { s with functions := Function.update s.functions t hs }

def rawMutexGet (s : State τ η ε) (t : τ) : Option (State τ η ε) :=
  if s.mutex = none then some { s with mutex := some t } else none

def rawMutexPut (s : State τ η ε) : State τ η ε := { s with mutex := none }

/-- The next step of `once`. -/
def once (s : State τ η ε) (t : τ) : Option (State τ η ε) :=
  match s.place t with
  | .lock h => (rawMutexGet s t).map fun s => s.go t (.test h)
  | .test h =>
    some (if s.state h = 2 then s.go t (.putDone h)
      else if s.state h = 0 then (s.setState h 1).go t (.putStart h)
      else s.go t (.putWait h))
  | .putDone h => some (((rawMutexPut s).record (.returned t h)).go t .user)
  | .putStart h =>
    some ((((rawMutexPut s).setFunctions t (h :: s.functions t)).record (.start t h)).go t .user)
  | .putWait h => some ((rawMutexPut s).go t (.sleep h))
  | .sleep h => some (s.go t (.lock h))
  | .lockDone h => (rawMutexGet s t).map fun s => s.go t (.setDone h)
  | .setDone h => some ((s.setState h 2).go t (.putReturn h))
  | .putReturn h => some (((rawMutexPut s).record (.returned t h)).go t .user)
  | .lockThrow h e => (rawMutexGet s t).map fun s => s.go t (.setThrow h e)
  | .setThrow h e => some ((s.setState h 0).go t (.putThrow h e))
  | .putThrow h e => some ((rawMutexPut s).go t (.rethrow h e))
  | .rethrow h e => some ((s.record (.raised t h e)).go t .user)
  | .user => none

/-- The innermost function ends. -/
def endFunction (s : State τ η ε) (t : τ) (event : η → OnceEvent τ η ε) (next : η → Place η ε) :
    Option (State τ η ε) :=
  match s.place t, s.functions t with
  | .user, h :: hs => some (((s.setFunctions t hs).record (event h)).go t (next h))
  | _, _ => none

def step (s : State τ η ε) : Action τ η ε → Option (State τ η ε)
  | .call t h => match s.place t with
    | .user => some (s.go t (.lock h))
    | _ => none
  | .once t => once s t
  | .finish t => endFunction s t (.complete t) .lockDone
  | .throw t e => endFunction s t (.threw t · e) (.lockThrow · e)

end SimPLCity.OnceHandles
