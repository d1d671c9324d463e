import Mathlib.Logic.Function.Basic
import Mathlib.Data.List.Basic

/-! Newlib's dynamic locks. Every step is one access to the pool, one call of ThreadX or one
allocation. Calls from interrupts, which fail at once, are left out. -/

namespace SimPLCity.LockPool

/-- `boot` is what runs before the scheduler starts, where `tx_thread_identify` finds no thread. -/
inductive Agent
  | boot
  | thread (t : Nat)
deriving DecidableEq, Repr

/-- `__lock_t` without its link. -/
structure Node where
  created : Bool := false
  allocated : Bool := false
  dynamic : Bool := false
deriving DecidableEq, Repr

/-- Where an agent is; `rest` are the nodes that a loop has still to look at. The node of `failUnlock`
and `failed` is the one whose mutex could not be created. -/
inductive Place
  | idle
  -- `__retarget_lock_init`
  | initLock | initScan (rest : List Nat) | initAllocate | initCreate (n : Nat) | initUnlock (n : Nat)
  | failUnlock (n : Option Nat)
  -- `__retarget_lock_close`
  | closeLock (n : Nat) | closeScan (n : Nat) (rest : List Nat) | closeUnlock
  -- `runtime_libc_initialize`
  | createStatic (left : Nat) | createDynamic (rest : List Nat) | createPool
  -- `libc_lock_failure`
  | failed (n : Option Nat)
deriving DecidableEq, Repr

/-- `pool` is the owner of `dynamic_pool_mutex`, `calloced` the number of nodes, and `held` are the
locks that the callers have. -/
structure State where
  started : Bool := false
  libcLocksReady : Bool := false
  pool : Option Agent := none
  nodes : Nat → Node := fun _ => {}
  dynamicLocks : List Nat := []
  calloced : Nat := 0
  place : Agent → Place := fun _ => .idle
  held : List Nat := []

/-- The pointer of a call may be null. A step of a call may find that ThreadX or `calloc` fails. -/
inductive Action
  | start
  | libcInitialize
  | init (a : Agent) (valid : Bool)
  | close (a : Agent) (lock : Option Nat)
  | advance (a : Agent) (ok : Bool)
deriving DecidableEq, Repr

def staticLockCount : Nat := 8

def State.go (s : State) (a : Agent) (p : Place) : State :=
  { s with place := Function.update s.place a p }

def State.setNode (s : State) (n : Nat) (node : Node) : State :=
  { s with nodes := Function.update s.nodes n node }

def State.setAllocated (s : State) (n : Nat) (allocated : Bool) : State :=
  s.setNode n { s.nodes n with allocated }

/-- A node from `calloc` becomes the head of the list. -/
def State.publish (s : State) : State :=
  { s.setNode s.calloced { allocated := true, dynamic := true } with
    dynamicLocks := s.calloced :: s.dynamicLocks
    calloced := s.calloced + 1 }

def State.setCreated (s : State) (n : Nat) : State :=
  s.setNode n { s.nodes n with created := true }

/-- Before the scheduler starts nothing is locked. Afterwards a thread waits for the mutex, unless
the locks are not ready or its wait fails. -/
def lockDynamicPool (s : State) (a : Agent) (ok : Bool) (next : Place) : Option State :=
  match a with
  | .boot => some (s.go a next)
  | .thread _ =>
    if !s.libcLocksReady || !ok then some (s.go a (.failed none))
    else if s.pool = none then some ({ s with pool := some a }.go a next)
    else none

/-- A thread gives the mutex back, which may fail. Without a state the call ends in
`libc_lock_failure`. -/
def unlockDynamicPool (s : State) (a : Agent) (ok : Bool) : Option State :=
  match a with
  | .boot => some s
  | .thread _ => if !s.libcLocksReady || !ok then none else some { s with pool := none }

/-- The next step of a call. -/
def advance (s : State) (a : Agent) (ok : Bool) : Option State :=
  match s.place a with
  | .initLock => lockDynamicPool s a ok (.initScan s.dynamicLocks)
  | .initScan [] => some (s.go a .initAllocate)
  | .initScan (candidate :: rest) =>
    if (s.nodes candidate).allocated then some (s.go a (.initScan rest))
    else some ((s.setAllocated candidate true).go a (.initUnlock candidate))
  | .initAllocate =>
    if ok then some (s.publish.go a (.initCreate s.calloced)) else some (s.go a (.failUnlock none))
  | .initCreate n =>
    if !s.libcLocksReady then some (s.go a (.initUnlock n))
    else if ok then some ((s.setCreated n).go a (.initUnlock n))
    else some (s.go a (.failUnlock (some n)))
  | .initUnlock n =>
    match unlockDynamicPool s a ok with
    | some s => some ({ s with held := n :: s.held }.go a .idle)
    | none => some (s.go a (.failed none))
  | .failUnlock n => some (((unlockDynamicPool s a ok).getD s).go a (.failed n))
  | .closeLock n => lockDynamicPool s a ok (.closeScan n s.dynamicLocks)
  | .closeScan _ [] => some (s.go a .closeUnlock)
  | .closeScan n (candidate :: rest) =>
    if n = candidate ∧ (s.nodes candidate).dynamic = true then
      some ((s.setAllocated candidate false).go a .closeUnlock)
    else some (s.go a (.closeScan n rest))
  | .closeUnlock =>
    match unlockDynamicPool s a ok with
    | some s => some (s.go a .idle)
    | none => some (s.go a (.failed none))
  | .createStatic 0 => some (s.go a (.createDynamic s.dynamicLocks))
  | .createStatic (left + 1) =>
    if ok then some (s.go a (.createStatic left)) else some (s.go a (.failed none))
  | .createDynamic [] => some (s.go a .createPool)
  | .createDynamic (n :: rest) =>
    if ok then some ((s.setCreated n).go a (.createDynamic rest)) else some (s.go a (.failed none))
  | .createPool =>
    if ok then some ({ s with libcLocksReady := true }.go a .idle) else some (s.go a (.failed none))
  | .idle | .failed _ => none

/-- An agent that is free to make a call. -/
def mayCall (s : State) (a : Agent) : Bool :=
  s.place a = .idle && (s.started == decide (a ≠ .boot))

/-- Callers close a lock only while they have it. -/
def step (s : State) : Action → Option State
  | .start => if mayCall s .boot then some { s with started := true } else none
  | .libcInitialize =>
    if mayCall s .boot then
      some (if s.libcLocksReady then s else s.go .boot (.createStatic staticLockCount))
    else none
  | .init a valid =>
    if mayCall s a then some (s.go a (if valid then .initLock else .failed none)) else none
  | .close a (some n) =>
    if mayCall s a ∧ n ∈ s.held then some ({ s with held := s.held.erase n }.go a (.closeLock n))
    else none
  | .close a none => if mayCall s a then some (s.go a (.failed none)) else none
  | .advance a ok => advance s a ok

end SimPLCity.LockPool
