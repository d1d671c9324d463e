import SimPLCity.Runs
import Mathlib.Logic.Function.Iterate
import Mathlib.Algebra.Group.Nat.Defs

/-! Thread-specific keys. Sixteen slots are handed out under handles that pack the slot and a
24-bit generation; every thread mirrors the generation of each value that it stores. A call is one
step, and so is each of the two halves of an iteration of `run_thread_specific_destructors`. -/

namespace SimPLCity.ThreadKeys

abbrev ThreadId := Nat

abbrev Value := Nat

abbrev Destructor := Nat

abbrev runtimeThreadKeyCount : Nat := 16

abbrev destructorIterations : Nat := 4

def makeKey (index generation : Nat) : Nat := (generation <<< 8 ||| index) % 2 ^ 32

def keyIndex (key : Nat) : Nat := key &&& 255

def keyGeneration (key : Nat) : Nat := key >>> 8

/-- 24 bits, and never 0. -/
def nextGeneration (generation : Nat) : Nat :=
  if (generation + 1) &&& 0xFFFFFF = 0 then 1 else (generation + 1) &&& 0xFFFFFF

/-- A creation of a slot, by its number. -/
structure Creation where
  index : Nat
  serial : Nat
deriving DecidableEq, Repr

/-- The generation that the creation with this number gets. -/
def generationOf (serial : Nat) : Nat := nextGeneration^[serial] 0

/-- What `key_create` has returned. -/
def Creation.handle (c : Creation) : Nat := makeKey c.index (generationOf c.serial)

structure KeyDefinition where
  destructor : Option Destructor := none
  generation : Nat := 0
  allocated : Bool := false
deriving DecidableEq, Repr

/-- Where a thread is in its loop over the keys. `fetched` has read the key's definition. -/
inductive Scan
  | idle
  | fetch (pass index : Nat) (invoked : Bool)
  | fetched (pass index : Nat) (invoked : Bool) (destructor : Option Destructor) (stamp : Nat)
  | finished
deriving DecidableEq, Repr

/-- `creations` counts the creations of a slot and `latest` is the one under which a thread last
stored a value in it, both for the proofs only. -/
structure Keys where
  keys : Nat → KeyDefinition := fun _ => {}
  generations : ThreadId → Nat → Nat := fun _ _ => 0
  values : ThreadId → Nat → Option Value := fun _ _ => none
  scan : ThreadId → Scan := fun _ => .idle
  creations : Nat → Nat := fun _ => 0
  latest : ThreadId → Nat → Nat := fun _ _ => 0

def initial : Keys := {}

/-- What a step answers. -/
inductive Answer
  | key (handle : Nat) | error (code : Nat) | done | value (v : Option Value)
  | called (destructor : Destructor) (v : Value) | nothing
deriving DecidableEq, Repr

abbrev eagain : Nat := 11

abbrev einval : Nat := 22

/-- `f` with another value at `t` and `i`. -/
def update₂ {β : Type} (f : ThreadId → Nat → β) (t : ThreadId) (i : Nat) (v : β) :
    ThreadId → Nat → β := Function.update f t (Function.update (f t) i v)

def keyCreate (s : Keys) (destructor : Option Destructor) : Keys × Answer :=
  match (List.range runtimeThreadKeyCount).find? fun i => !(s.keys i).allocated with
  | some i =>
    let generation := nextGeneration (s.keys i).generation
    ({ s with
        keys := Function.update s.keys i { allocated := true, destructor, generation }
        creations := Function.update s.creations i (s.creations i + 1) },
      .key (makeKey i generation))
  | none => (s, .error eagain)

/-- The handle is of a key that is there. -/
def Keys.has (s : Keys) (key : Nat) : Bool :=
  keyIndex key < runtimeThreadKeyCount && keyGeneration key ≠ 0 &&
    (s.keys (keyIndex key)).allocated && (s.keys (keyIndex key)).generation = keyGeneration key

def keyDelete (s : Keys) (key : Nat) : Keys × Answer :=
  if s.has key then
    ({ s with
        keys := Function.update s.keys (keyIndex key)
          { s.keys (keyIndex key) with allocated := false, destructor := none } },
      .done)
  else (s, .error einval)

def keyGet (s : Keys) (t : ThreadId) (key : Nat) : Keys × Answer :=
  if s.has key && s.generations t (keyIndex key) = keyGeneration key then
    (s, .value (s.values t (keyIndex key)))
  else (s, .value none)

def keySet (s : Keys) (t : ThreadId) (key : Nat) (v : Option Value) : Keys × Answer :=
  if s.has key then
    ({ s with
        generations := update₂ s.generations t (keyIndex key) (keyGeneration key)
        values := update₂ s.values t (keyIndex key) v
        latest := update₂ s.latest t (keyIndex key) (s.creations (keyIndex key)) },
      .done)
  else (s, .error einval)

/-- The place after the destructor of a key was called or not. -/
def Scan.next (pass index : Nat) (invoked : Bool) : Scan :=
  if index + 1 < runtimeThreadKeyCount then .fetch pass (index + 1) invoked
  else if invoked && pass + 1 < destructorIterations then .fetch (pass + 1) 0 false
  else .finished

/-- The next half of an iteration of `run_thread_specific_destructors`. -/
def runThreadSpecificDestructors (s : Keys) (t : ThreadId) : Keys × Answer :=
  let go (place : Scan) : Keys := { s with scan := Function.update s.scan t place }
  match s.scan t with
  | .idle => (go (.fetch 0 0 false), .nothing)
  | .fetch pass i invoked =>
    (go (.fetched pass i invoked (if (s.keys i).allocated then (s.keys i).destructor else none)
      (s.keys i).generation), .nothing)
  | .fetched pass i invoked destructor generation =>
    match destructor, s.values t i with
    | some d, some v =>
      if s.generations t i = generation then
        ({ go (.next pass i true) with values := update₂ s.values t i none }, .called d v)
      else (go (.next pass i invoked), .nothing)
    | _, _ => (go (.next pass i invoked), .nothing)
  | .finished => (s, .nothing)

inductive Action
  | create (t : ThreadId) (destructor : Option Destructor)
  | delete (t : ThreadId) (c : Creation)
  | get (t : ThreadId) (c : Creation)
  | set (t : ThreadId) (c : Creation) (v : Option Value)
  | scan (t : ThreadId)
deriving DecidableEq, Repr

/-- The thread may call: it is neither between the two halves nor over. -/
def Scan.calls : Scan → Bool
  | .fetched .. | .finished => false
  | _ => true

def act (s : Keys) : Action → Keys × Answer
  | .create t destructor => if (s.scan t).calls then keyCreate s destructor else (s, .nothing)
  | .delete t c => if (s.scan t).calls then keyDelete s c.handle else (s, .nothing)
  | .get t c => if (s.scan t).calls then keyGet s t c.handle else (s, .nothing)
  | .set t c v => if (s.scan t).calls then keySet s t c.handle v else (s, .nothing)
  | .scan t => runThreadSpecificDestructors s t

def step (s : Keys) (i : Action) : Keys := (act s i).1

def answer (s : Keys) (i : Action) : Answer := (act s i).2

end SimPLCity.ThreadKeys
