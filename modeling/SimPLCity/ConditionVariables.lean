import SimPLCity.IntrusiveList

/-! A condition variable and the threads that wait for it and wake each other. Every step is one
ThreadX call, one call of `append_waiter` or `remove_waiter`, or one test of the code; mutexes
and semaphores are ThreadX's, and a wait for one is a step that is not possible yet. -/

namespace SimPLCity.ConditionVariables
open IntrusiveList

abbrev ThreadId := Nat

abbrev MutexId := Nat

/-- Where a thread is. In `wake` and `posted` the lists are for the proofs only: the waiters that
were there when the mutex was taken, and those that have been removed and posted since. -/
inductive Place
  | user
  | returned (code : Nat) (relocked : Bool)
  -- `condition_wait_common`; `unlocked` is whether the user's mutex could be released
  | create | enter | append | unlock | leave (unlocked : Bool) | sleep
  | recheck (status : Nat) (unlocked : Bool) | settle (status : Nat) (unlocked : Bool)
  | resume (status : Nat) (unlocked : Bool) | destroy (status : Nat) (unlocked : Bool)
  | relock (status : Nat)
  -- `condition_signal` and `condition_broadcast`
  | wakeEnter (all : Bool)
  | wake (all : Bool) (found done : List ThreadId)
  | post (all : Bool) (found done : List ThreadId) (waiter : ThreadId)
  | wakeLeave (all : Bool) (found done : List ThreadId)
deriving DecidableEq, Repr

/-- The thread owns the mutex of the condition variable. -/
def holds : Place → Bool
  | .append | .unlock | .leave _ | .settle _ _ | .resume _ _ | .wake _ _ _ | .post _ _ _ _
  | .wakeLeave _ _ _ => true
  | _ => false

/-- The ThreadX calls, on mutexes `μ` and semaphores `σ`. `mutexGet` and `semaphoreGet` give nothing
while the caller has to wait. -/
structure Objects (μ σ : Type) where
  mutexCreate : μ
  mutexOwner : μ → Option ThreadId
  mutexGet : μ → ThreadId → Option μ
  mutexPut : μ → μ
  semaphoreCreate : σ
  semaphoreGet : σ → Option σ
  semaphorePut : σ → σ

/-- `links` are `first`, `last` and the fields of the waiters; a waiter is on the stack of its
thread and goes by its name. `semaphore` is the waiter's semaphore, if there is one.
The last four are for the proofs only: the waiters in the list, when each was appended, how many
were appended, and whether a wait's waiter was removed by a signal or a broadcast. -/
structure State (μ σ : Type) where
  links : Links ThreadId := {}
  mutex : μ
  semaphore : ThreadId → Option σ := fun _ => none
  userMutex : MutexId → μ
  place : ThreadId → Place := fun _ => .user
  argument : ThreadId → MutexId := fun _ => 0
  timed : ThreadId → Bool := fun _ => false
  queue : List ThreadId := []
  arrival : ThreadId → Nat := fun _ => 0
  arrivals : Nat := 0
  removed : ThreadId → Bool := fun _ => false

/-! The error numbers of the C library -/

abbrev eagain : Nat := 11

abbrev einval : Nat := 22

abbrev etimedout : Nat := 116

abbrev eperm : Nat := 1

def Place.isUser : Place → Bool
  | .user | .returned _ _ => true
  | _ => false

section
variable {μ σ : Type}

def initial (o : Objects μ σ) : State μ σ where
  mutex := o.mutexCreate
  userMutex _ := o.mutexCreate

def State.go (s : State μ σ) (t : ThreadId) (p : Place) : State μ σ :=
  { s with place := Function.update s.place t p }

def State.setSemaphore (s : State μ σ) (t : ThreadId) (n : Option σ) : State μ σ :=
  { s with semaphore := Function.update s.semaphore t n }

def State.setMutex (s : State μ σ) (m : MutexId) (x : μ) : State μ σ :=
  { s with userMutex := Function.update s.userMutex m x }

def appendWaiter (s : State μ σ) (t : ThreadId) : State μ σ :=
  { s with
    links := s.links.append t
    queue := s.queue ++ [t]
    arrival := Function.update s.arrival t s.arrivals
    arrivals := s.arrivals + 1 }

def removeWaiter (s : State μ σ) (t : ThreadId) : State μ σ :=
  { s with links := s.links.remove t, queue := s.queue.erase t }

/-- `lock_mutex` with a mutex that is not recursive. -/
def Objects.lockMutex (o : Objects μ σ) (x : μ) (t : ThreadId) : Option μ :=
  if o.mutexOwner x = some t then none else o.mutexGet x t

variable (o : Objects μ σ) (s : State μ σ) (t : ThreadId)

/-- `condition_wait` and `condition_timed_wait` with a mutex that the caller owns. -/
def callWait (m : MutexId) (timed : Bool) : Option (State μ σ) :=
  if (s.place t).isUser && o.mutexOwner (s.userMutex m) = some t then
    some
      { s.go t .create with
        argument := Function.update s.argument t m
        timed := Function.update s.timed t timed
        removed := Function.update s.removed t false }
  else none

/-- The next step of `condition_wait_common`. -/
def conditionWaitCommon : Option (State μ σ) :=
  match s.place t with
  | .create => some ({ s.setSemaphore t (some o.semaphoreCreate) with
      links := s.links.reset t }.go t .enter)
  | .enter => (o.mutexGet s.mutex t).map fun x => { s with mutex := x }.go t .append
  | .append => some ((appendWaiter s t).go t .unlock)
  | .unlock =>
    if o.mutexOwner (s.userMutex (s.argument t)) = some t then
      some ((s.setMutex (s.argument t) (o.mutexPut (s.userMutex (s.argument t)))).go t (.leave true))
    else some (s.go t (.leave false))
  | .leave unlocked => some ({ s with mutex := o.mutexPut s.mutex }.go t
      (if unlocked then .sleep else .recheck eperm false))
  | .sleep => ((s.semaphore t).bind o.semaphoreGet).map fun n =>
      (s.setSemaphore t (some n)).go t (.destroy 0 true)
  | .recheck status unlocked => (o.mutexGet s.mutex t).map fun x =>
      { s with mutex := x }.go t (.settle status unlocked)
  | .settle status unlocked =>
    if s.links.linked t || !unlocked then
      some ((removeWaiter s t).go t (.resume status unlocked))
    else
      match (s.semaphore t).bind o.semaphoreGet with
      | some n => some ((s.setSemaphore t (some n)).go t (.resume 0 unlocked))
      | none => some (s.go t (.resume status unlocked))
  | .resume status unlocked =>
    some ({ s with mutex := o.mutexPut s.mutex }.go t (.destroy status unlocked))
  | .destroy status unlocked =>
    some ((s.setSemaphore t none).go t (if unlocked then .relock status else .returned status false))
  | .relock status => (o.lockMutex (s.userMutex (s.argument t)) t).map fun x =>
      (s.setMutex (s.argument t) x).go t (.returned status true)
  | _ => none

/-- The semaphore of the waiter cannot be created. -/
def createFails : Option (State μ σ) :=
  if s.place t = .create then some (s.go t (.returned eagain true)) else none

/-- The wait for the semaphore ends without a token: at the deadline, or because it is aborted. -/
def sleepFails (aborted : Bool) : Option (State μ σ) :=
  if s.place t = .sleep && (aborted || s.timed t) then
    some (s.go t (.recheck (if aborted then einval else etimedout) true))
  else none

/-- The user's mutex cannot be locked again; `code` is not 0. -/
def relockFails (code : Nat) : Option (State μ σ) :=
  match s.place t with
  | .relock _ => if code ≠ 0 then some (s.go t (.returned code false)) else none
  | _ => none

def callWake (all : Bool) : Option (State μ σ) :=
  if (s.place t).isUser then some (s.go t (.wakeEnter all)) else none

/-- The next step of `condition_broadcast`, or of `condition_signal`, which wakes once. -/
def conditionWake : Option (State μ σ) :=
  match s.place t with
  | .wakeEnter all => (o.mutexGet s.mutex t).map fun x =>
      { s with mutex := x }.go t (.wake all s.queue [])
  | .wake all found done =>
    match s.links.first with
    | some w => some ({ removeWaiter s w with
        removed := Function.update s.removed w true }.go t (.post all found done w))
    | none => some (s.go t (.wakeLeave all found done))
  | .post all found done w => (s.semaphore w).map fun n =>
      (s.setSemaphore w (some (o.semaphorePut n))).go t
        (if all then .wake all found (done ++ [w]) else .wakeLeave all found (done ++ [w]))
  | .wakeLeave _ _ _ => some ({ s with mutex := o.mutexPut s.mutex }.go t .user)
  | _ => none

def userLock (m : MutexId) : Option (State μ σ) :=
  if (s.place t).isUser then (o.lockMutex (s.userMutex m) t).map (s.setMutex m) else none

def userUnlock (m : MutexId) : Option (State μ σ) :=
  if (s.place t).isUser && o.mutexOwner (s.userMutex m) = some t then
    some (s.setMutex m (o.mutexPut (s.userMutex m)))
  else none

end

inductive Action
  | callWait (t : ThreadId) (m : MutexId) (timed : Bool)
  | wait (t : ThreadId)
  | createFails (t : ThreadId)
  | sleepFails (t : ThreadId) (aborted : Bool)
  | relockFails (t : ThreadId) (code : Nat)
  | callWake (t : ThreadId) (all : Bool)
  | wake (t : ThreadId)
  | userLock (t : ThreadId) (m : MutexId)
  | userUnlock (t : ThreadId) (m : MutexId)
deriving DecidableEq, Repr

def step {μ σ : Type} (o : Objects μ σ) (s : State μ σ) : Action → Option (State μ σ)
  | .callWait t m timed => callWait o s t m timed
  | .wait t => conditionWaitCommon o s t
  | .createFails t => createFails s t
  | .sleepFails t aborted => sleepFails s t aborted
  | .relockFails t code => relockFails s t code
  | .callWake t all => callWake s t all
  | .wake t => conditionWake o s t
  | .userLock t m => userLock o s t m
  | .userUnlock t m => userUnlock o s t m

/-! Mutexes of which only the owner is kept, and semaphores of which only the count is. -/

def owners : Objects (Option ThreadId) Nat where
  mutexCreate := none
  mutexOwner x := x
  mutexGet x t := if x = none then some (some t) else none
  mutexPut _ := none
  semaphoreCreate := 0
  semaphoreGet n := if 0 < n then some (n - 1) else none
  semaphorePut n := n + 1

abbrev Owned := State (Option ThreadId) Nat

section
variable {x x' : Option ThreadId} {t : ThreadId} {n : Option Nat} {k : Nat}

theorem owners_owner : owners.mutexOwner x = x := rfl

@[simp] theorem owners_free : owners.mutexCreate = none := rfl

@[simp] theorem owners_put : owners.mutexPut x = none := rfl

@[simp] theorem owners_create : owners.semaphoreCreate = 0 := rfl

@[simp] theorem owners_post : owners.semaphorePut k = k + 1 := rfl

@[simp] theorem owners_lock_free : owners.lockMutex none t = some (some t) := rfl

theorem owners_get (h : owners.mutexGet x t = some x') : x = none ∧ x' = some t := by
  simp only [owners] at h
  split at h
  · rename_i hx
    exact ⟨hx, (Option.some.inj h).symm⟩
  · cases h

theorem owners_lock (h : owners.lockMutex x t = some x') : x = none ∧ x' = some t := by
  unfold Objects.lockMutex at h
  split at h
  · cases h
  · exact owners_get h

theorem owners_token (h : n.bind owners.semaphoreGet = some k) : n = some (k + 1) := by
  obtain ⟨i, rfl, hi⟩ := Option.bind_eq_some_iff.mp h
  simp only [owners] at hi
  split at hi
  · rename_i hpos
    rw [← Option.some.inj hi, Nat.sub_add_cancel hpos]
  · cases hi

end

end SimPLCity.ConditionVariables
