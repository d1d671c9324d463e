import SimPLCity.ThreadXObjects

/-! A mutex whose ThreadX mutex is created when it is first locked, by any number of threads, and
deleted when the mutex is destroyed. Every step is one access to the published pointer or to the
owner, one allocation, one ThreadX call, or the end of a wait. -/

namespace SimPLCity.LazyMutexes
open LazyCreation ThreadXObjects

inductive Operation
  | lock | tryLock | timedLock | unlock | destroy
deriving DecidableEq, Repr

inductive Answer
  | ok | enomem | einval | ebusy | edeadlk | etimedout | eperm
deriving DecidableEq, Repr

inductive Place
  | user | load
  -- `ensure_mutex`
  | ensure (e : Ensure)
  -- the test of the owner, `tx_mutex_get` and its wait, `tx_mutex_put`, `tx_mutex_delete`
  | check (n : NativeId) | get (n : NativeId) | suspended (n : NativeId) | put (n : NativeId)
  | delete (n : NativeId) | clear (n : NativeId)
  | returned (answer : Answer)
deriving DecidableEq, Repr

/-- For the proofs only, `held` counts what a thread has locked and not unlocked. -/
structure State (τ ν : Type*) extends Lazy τ ν where
  recursive : Bool
  place : τ → Place := fun _ => .user
  operation : τ → Operation := fun _ => .lock
  held : τ → Nat := fun _ => 0

def Place.isUser : Place → Bool
  | .user | .returned _ => true
  | _ => false

section
variable {τ ν : Type*} [DecidableEq τ]

def State.go (s : State τ ν) (t : τ) (p : Place) : State τ ν :=
  { s with place := Function.update s.place t p }

def State.set (s : State τ ν) (n : NativeId) (m : ν) : State τ ν :=
  { s with toLazy := s.toLazy.act n m }

def State.hold (s : State τ ν) (t : τ) (k : Nat) : State τ ν :=
  { s with held := Function.update s.held t k }

section
variable (k : MutexKind τ ν)

def initial (recursive : Bool) : State τ ν := { recursive, natives := fun _ => k.made }

/-- The load of the pointer with which every call begins. -/
def load (s : State τ ν) (t : τ) : Option (State τ ν) :=
  match s.place t, s.implementation, s.operation t with
  | .load, some n, .unlock => some (s.go t (.put n))
  | .load, none, .unlock => some (s.go t (.returned .eperm))
  | .load, some n, .destroy => some (s.go t (.delete n))
  | .load, none, .destroy => some (s.go t (.returned .ok))
  | .load, some n, _ => some (s.go t (.check n))
  | .load, none, _ => some (s.go t (.ensure .enter))
  | _, _, _ => none

/-- The next step of `ensure_mutex`. -/
def ensureMutex (s : State τ ν) (t : τ) (succeeds : Bool) : Option (State τ ν) :=
  match s.place t with
  | .ensure e =>
    (ensure k.toKind s.toLazy t succeeds e).map fun next =>
      let s := { s with toLazy := next.1 }
      match next.2 with
      | .goes e => s.go t (.ensure e)
      | .returns (some n) => s.go t (.check n)
      | .returns none => s.go t (.returned .enomem)
  | _ => none

/-- `lock_mutex` after `ensure_mutex`; `expired` is whether the deadline of a timed lock has
passed. -/
def lockMutex (s : State τ ν) (t : τ) (expired : Bool) : Option (State τ ν) :=
  match s.place t with
  | .check n =>
    if !s.recursive && k.owner (s.natives n) = some t then
      some (s.go t (.returned (if s.operation t = .tryLock then .ebusy else .edeadlk)))
    else some (s.go t (.get n))
  | .get n =>
    match k.get (s.natives n) t with
    | some m => some (((s.set n m).hold t (s.held t + 1)).go t (.returned .ok))
    | none =>
      if s.operation t = .tryLock then some (s.go t (.returned .ebusy))
      else if s.operation t = .timedLock && expired then some (s.go t (.returned .etimedout))
      else some ((s.set n (k.suspend (s.natives n) t)).go t (.suspended n))
  | _ => none

/-- A wait ends without the mutex: at a timeout, after which the deadline is looked at again, or
because it is aborted. -/
def waitEnds (s : State τ ν) (t : τ) (aborted : Bool) : Option (State τ ν) :=
  match s.place t with
  | .suspended n =>
    if aborted || s.operation t = .timedLock then
      some ((s.set n (k.ends (s.natives n) t)).go t (if aborted then .returned .einval else .get n))
    else none
  | _ => none

/-- `unlock_mutex`; a thread that is suspended gets the mutex when it is free. -/
def unlockMutex (s : State τ ν) (t : τ) (next : Option τ) : Option (State τ ν) :=
  match s.place t with
  | .put n =>
    if k.owner (s.natives n) = some t then
      let m := k.put (s.natives n)
      let s' := ((s.set n m).hold t (s.held t - 1)).go t (.returned .ok)
      match next with
      | none => if (k.owner m).isSome || k.suspended m = [] then some s' else none
      | some w =>
        if k.owner m = none && (k.suspended m).contains w then
          some (((s'.set n (k.hand m w)).hold w (s'.held w + 1)).go w (.returned .ok))
        else none
    else some (s.go t (.returned .eperm))
  | _ => none

/-- `destroy_mutex`; `failure` is what the call returns when the deletion fails. -/
def destroyMutex (s : State τ ν) (t : τ) (failure : Option Answer) : Option (State τ ν) :=
  match s.place t, failure with
  | .delete n, none => some (s.go t (.clear n))
  | .delete _, some a => if a = .ebusy || a = .einval then some (s.go t (.returned a)) else none
  | .clear _, _ => some ({ s with implementation := none }.go t (.returned .ok))
  | _, _ => none

inductive Action (τ : Type*)
  | call (t : τ) (operation : Operation)
  | load (t : τ)
  | ensure (t : τ) (succeeds : Bool)
  | lock (t : τ) (expired : Bool)
  | ends (t : τ) (aborted : Bool)
  | unlock (t : τ) (next : Option τ)
  | destroy (t : τ) (failure : Option Answer)
deriving DecidableEq, Repr

def step (s : State τ ν) : Action τ → Option (State τ ν)
  | .call t operation =>
    if (s.place t).isUser then
      some ({ s with operation := Function.update s.operation t operation }.go t .load)
    else none
  | .load t => load s t
  | .ensure t succeeds => ensureMutex k s t succeeds
  | .lock t expired => lockMutex k s t expired
  | .ends t aborted => waitEnds k s t aborted
  | .unlock t next => unlockMutex k s t next
  | .destroy t failure => destroyMutex s t failure

end

/-- The thread is in `destroy_mutex`. -/
def State.destroys (s : State τ ν) (t : τ) : Bool := s.operation t = .destroy && !(s.place t).isUser

/-- The condition on a call: the mutex is destroyed only while no thread holds it or is in another
call on it. -/
def Proper (s : State τ ν) : Action τ → Prop
  | .call t operation => (∀ u, s.destroys u = false) ∧
    (operation = .destroy → ∀ u, s.held u = 0 ∧ (u = t ∨ (s.place u).isUser = true))
  | _ => True

end

end SimPLCity.LazyMutexes
