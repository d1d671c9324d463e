import Mathlib.Data.List.Basic
import Mathlib.Logic.Function.Basic
import Mathlib.Algebra.Group.Nat.Defs

/-! Runtime threads, their control blocks and the reaper. Every step is one ThreadX call or
one critical section of `thread_create`, `thread_entry`, `thread_join`, `thread_detach` or
`reaper_entry`; what the threads do in between is up to them. A waiting ThreadX call is a
step that is not possible yet. -/

namespace SimPLCity.ThreadLifecycle

/-- The address of a control block. The address of a thread's block is not used again. -/
abbrev ControlId := Nat

/-- A caller of the runtime: one of its threads, or a thread made without it. -/
inductive Agent
  | thread (c : ControlId)
  | other (n : Nat)
deriving DecidableEq, Repr

/-- Where a thread is: not yet created in a registered block, in `thread_entry` up to `send`, in its
exit destructors, completed. In `body` and `exit` it runs user code, or a call that user code made. -/
inductive Phase
  | absent | registered | start | body | lock | mark | unlock (enqueue : Bool) | put (enqueue : Bool) | send
  | exit | completed
deriving DecidableEq, Repr

inductive JoinStep
  | wait | lock | mark | refuse | unlock | send | acknowledge
deriving DecidableEq, Repr

inductive DetachStep
  | lock | mark | refuse | unlock (enqueue : Bool) | send
deriving DecidableEq, Repr

/-- What has become of the handle: it is for one join or one detach. While `thread_create` is
`creating` there is none. -/
inductive Usage
  | fresh | creating (a : Agent) | joining (a : Agent) (step : JoinStep) | detaching (a : Agent) (step : DetachStep)
  | joined | detached | failed
deriving DecidableEq, Repr

structure ThreadControl where
  registryId : Nat := 0
  completion : Nat := 0
  lifecycleMutex : Option Agent := none
  cleanupAck : Option Agent := none
  detached : Bool := false
  finished : Bool := false
  cleanupQueued : Bool := false
deriving DecidableEq, Repr

def ThreadControl.lock (k : ThreadControl) (a : Agent) : ThreadControl :=
  { k with lifecycleMutex := some a }

def ThreadControl.unlock (k : ThreadControl) : ThreadControl := { k with lifecycleMutex := none }

/-- `thread_entry` enqueues the block of a thread that is detached. -/
def ThreadControl.finishEnqueues (k : ThreadControl) : Bool := k.detached && !k.cleanupQueued

def ThreadControl.finish (k : ThreadControl) : ThreadControl :=
  { k with finished := true, cleanupQueued := k.cleanupQueued || k.finishEnqueues }

def ThreadControl.putCompletion (k : ThreadControl) : ThreadControl :=
  { k with completion := k.completion + 1 }

def ThreadControl.takeCompletion (k : ThreadControl) : ThreadControl :=
  { k with completion := k.completion - 1 }

/-- A join and a detach are refused. -/
def ThreadControl.isClaimed (k : ThreadControl) : Bool := k.detached || k.cleanupQueued

def ThreadControl.join (k : ThreadControl) (a : Agent) : ThreadControl :=
  { k with cleanupAck := some a, cleanupQueued := true }

def ThreadControl.detach (k : ThreadControl) : ThreadControl :=
  { k with detached := true, cleanupQueued := k.cleanupQueued || k.finished }

/-- A control block with its thread. `control` is the local variable of `thread_entry`;
`sent` counts the messages about the block, for the proofs only. -/
structure Block extends ThreadControl where
  phase : Phase := .absent
  control : ControlId := 0
  usage : Usage := .fresh
  sent : Nat := 0
deriving DecidableEq, Repr

inductive Reaper
  | receive | received (message : Nat) | waiting (c : ControlId)
  | deleting (c : ControlId) (ack : Option Agent) | acknowledging (ack : Option Agent)
deriving DecidableEq, Repr

/-- `busy` is the block that an agent's call is about, `acknowledgement` the count
of the semaphore that a join has on its stack. -/
structure State where
  blocks : ControlId → Block
  busy : Agent → Option ControlId
  acknowledgement : Agent → Nat
  registry : List ControlId
  nextRegistryId : Nat
  queue : List Nat
  reaper : Reaper

abbrev cleanupQueueDepth : Nat := 16

def initial : State where
  blocks := fun _ => {}
  busy := fun _ => none
  acknowledgement := fun _ => 0
  registry := []
  nextRegistryId := 1
  queue := []
  reaper := .receive

def State.set (s : State) (c : ControlId) (b : Block) : State :=
  { s with blocks := Function.update s.blocks c b }

def State.setBusy (s : State) (a : Agent) (c : Option ControlId) : State :=
  { s with busy := Function.update s.busy a c }

def State.setAcknowledgement (s : State) (a : Agent) (n : Nat) : State :=
  { s with acknowledgement := Function.update s.acknowledgement a n }

/-- `registry_id` is 32 bits wide and never 0. -/
def nextId (n : Nat) : Nat := if (n + 1) % 2 ^ 32 = 0 then 1 else (n + 1) % 2 ^ 32

def findThread (s : State) (registryId : Nat) : Option ControlId :=
  s.registry.find? fun c => (s.blocks c).registryId = registryId

/-- A thread runs user code, which may call the runtime. -/
def State.inUserCode (s : State) : Agent → Bool
  | .thread c => ((s.blocks c).phase = .body || (s.blocks c).phase = .exit) &&
      s.busy (.thread c) = none
  | .other n => s.busy (.other n) = none

/-- `thread_create` up to the registration of the block. -/
def registerThread (s : State) (a : Agent) (c : ControlId) : Option State :=
  if s.inUserCode a && (s.blocks c).phase = .absent then
    some
      { (s.set c { registryId := s.nextRegistryId, phase := .registered, usage := .creating a }).setBusy
          a c with
        registry := c :: s.registry
        nextRegistryId := nextId s.nextRegistryId }
  else none

/-- The thread is created, or the block is unregistered and freed. -/
def threadCreate (s : State) (a : Agent) (created : Bool) : Option State :=
  match s.busy a with
  | none => none
  | some c =>
    if (s.blocks c).usage = .creating a then
      if created then
        some ((s.set c { s.blocks c with phase := .start, usage := .fresh }).setBusy a none)
      else some { (s.set c {}).setBusy a none with registry := s.registry.erase c }
    else none

def enqueueCleanup (s : State) (c : ControlId) : Option State :=
  if s.queue.length < cleanupQueueDepth then
    some
      { s.set c { s.blocks c with sent := (s.blocks c).sent + 1 } with
        queue := s.queue ++ [(s.blocks c).registryId] }
  else none

def State.change (s : State) (c : ControlId) (f : ThreadControl → ThreadControl) : State :=
  s.set c { s.blocks c with toThreadControl := f (s.blocks c).toThreadControl }

def State.setPhase (s : State) (c : ControlId) (phase : Phase) : State :=
  s.set c { s.blocks c with phase := phase }

/-- `thread_entry` but for the call of the entry function. -/
def threadEntry (s : State) (c : ControlId) : Option State :=
  let k := (s.blocks c).control
  match (s.blocks c).phase with
  | .start => (findThread s (s.blocks c).registryId).map fun k =>
      s.set c { s.blocks c with control := k, phase := .body }
  | .lock =>
    if (s.blocks k).lifecycleMutex = none then
      some ((s.change k fun k => k.lock (.thread c)).setPhase c .mark)
    else none
  | .mark =>
    some ((s.change k ThreadControl.finish).setPhase c (.unlock (s.blocks k).finishEnqueues))
  | .unlock enqueue => some ((s.change k ThreadControl.unlock).setPhase c (.put enqueue))
  | .put enqueue =>
    some ((s.change k ThreadControl.putCompletion).setPhase c (if enqueue then .send else .exit))
  | .send => (enqueueCleanup s k).map fun s => s.setPhase c .exit
  | _ => none

/-- The entry function returns, or the exit destructors are done. -/
def returns (s : State) (c : ControlId) : Option State :=
  if s.busy (.thread c) = none then
    match (s.blocks c).phase with
    | .body => some (s.setPhase c .lock)
    | .exit => some (s.setPhase c .completed)
    | _ => none
  else none

def State.setUsage (s : State) (c : ControlId) (usage : Usage) : State :=
  s.set c { s.blocks c with usage := usage }

def callJoin (s : State) (a : Agent) (c : ControlId) : Option State :=
  if s.inUserCode a && (s.blocks c).phase ≠ .absent && (s.blocks c).usage = .fresh then
    -- EDEADLK
    if a = .thread c then some (s.setUsage c .failed)
    else some ((s.setUsage c (.joining a .wait)).setBusy a c)
  else none

def callDetach (s : State) (a : Agent) (c : ControlId) : Option State :=
  if s.inUserCode a && (s.blocks c).phase ≠ .absent && (s.blocks c).usage = .fresh then
    some ((s.setUsage c (.detaching a .lock)).setBusy a c)
  else none

/-- The call of `a` on `c` comes to its end. -/
def State.finish (s : State) (a : Agent) (c : ControlId) (usage : Usage) : State :=
  (s.setUsage c usage).setBusy a none

def threadJoin (s : State) (a : Agent) (c : ControlId) : JoinStep → Option State
  | .wait =>
    if 0 < (s.blocks c).completion then
      some (((s.change c ThreadControl.takeCompletion).setUsage c (.joining a .lock)).setAcknowledgement a 0)
    else none
  | .lock =>
    if (s.blocks c).lifecycleMutex = none then
      some ((s.change c fun k => k.lock a).setUsage c (.joining a .mark))
    else none
  | .mark =>
    if (s.blocks c).isClaimed then some (s.setUsage c (.joining a .refuse))
    else some ((s.change c fun k => k.join a).setUsage c (.joining a .unlock))
  | .refuse =>
    -- EINVAL
    some ((s.change c ThreadControl.unlock).finish a c .failed)
  | .unlock => some ((s.change c ThreadControl.unlock).setUsage c (.joining a .send))
  | .send => (enqueueCleanup s c).map fun s => s.setUsage c (.joining a .acknowledge)
  | .acknowledge =>
    if 0 < s.acknowledgement a then
      some ((s.finish a c .joined).setAcknowledgement a (s.acknowledgement a - 1))
    else none

def threadDetach (s : State) (a : Agent) (c : ControlId) : DetachStep → Option State
  | .lock =>
    if (s.blocks c).lifecycleMutex = none then
      some ((s.change c fun k => k.lock a).setUsage c (.detaching a .mark))
    else none
  | .mark =>
    if (s.blocks c).isClaimed then some (s.setUsage c (.detaching a .refuse))
    else
      some ((s.change c ThreadControl.detach).setUsage c (.detaching a (.unlock (s.blocks c).finished)))
  | .refuse =>
    -- EINVAL
    some ((s.change c ThreadControl.unlock).finish a c .failed)
  | .unlock enqueue =>
    let s := s.change c ThreadControl.unlock
    some (if enqueue then s.setUsage c (.detaching a .send) else s.finish a c .detached)
  | .send => (enqueueCleanup s c).map fun s => s.finish a c .detached

/-- The next step of an agent's join or detach. -/
def call (s : State) (a : Agent) : Option State :=
  match s.busy a with
  | none => none
  | some c =>
    match (s.blocks c).usage with
    | .joining _ step => threadJoin s a c step
    | .detaching _ step => threadDetach s a c step
    | _ => none

/-- The wait for completion is aborted (EINVAL), or else there is no semaphore for the
acknowledgement (EAGAIN). -/
def joinFails (s : State) (a : Agent) (aborted : Bool) : Option State :=
  match s.busy a with
  | none => none
  | some c =>
    if (s.blocks c).usage = .joining a .wait then
      if aborted then some (s.finish a c .failed)
      else if 0 < (s.blocks c).completion then
        some ((s.change c ThreadControl.takeCompletion).finish a c .failed)
      else none
    else none

def reaperEntry (s : State) : Option State :=
  match s.reaper with
  | .receive =>
    match s.queue with
    | [] => none
    | message :: queue => some { s with queue := queue, reaper := .received message }
  | .received message => (findThread s message).map fun c => { s with reaper := .waiting c }
  | .waiting c =>
    if (s.blocks c).phase = .completed then
      some { s with reaper := .deleting c (s.blocks c).cleanupAck }
    else none
  | .deleting c ack => some { s with registry := s.registry.erase c, reaper := .acknowledging ack }
  | .acknowledging none => some { s with reaper := .receive }
  | .acknowledging (some a) =>
    some { s.setAcknowledgement a (s.acknowledgement a + 1) with reaper := .receive }

inductive Action
  | register (a : Agent) (c : ControlId)
  | create (a : Agent) (created : Bool)
  | join (a : Agent) (c : ControlId)
  | detach (a : Agent) (c : ControlId)
  | returns (c : ControlId)
  | entry (c : ControlId)
  | call (a : Agent)
  | joinFails (a : Agent) (aborted : Bool)
  | reap
deriving DecidableEq, Repr

def step (s : State) : Action → Option State
  | .register a c => registerThread s a c
  | .create a created => threadCreate s a created
  | .join a c => callJoin s a c
  | .detach a c => callDetach s a c
  | .returns c => returns s c
  | .entry c => threadEntry s c
  | .call a => call s a
  | .joinFails a aborted => joinFails s a aborted
  | .reap => reaperEntry s

end SimPLCity.ThreadLifecycle
