import SimPLCity.Runs
import Mathlib.Logic.Function.Basic
import Mathlib.Algebra.Group.Nat.Defs

/-! Emulated thread-local storage. Each object gets a number at its first use; each thread, and the
context before the scheduler, has an array of its own that grows with the numbers. A call is three
steps: the load of the object's offset, the guarded assignment, and the work on the array. -/

namespace SimPLCity.EmulatedTls

abbrev ThreadId := Nat

abbrev ObjectId := Nat

/-- The first thread, which goes on with what the startup context has. -/
abbrev applicationThread : ThreadId := 0

/-- The greatest `std::size_t`. -/
abbrev sizeMax : Nat := 2 ^ 32 - 1

abbrev pointerSize : Nat := 4

/-- The fields of an `EmutlsObject` that do not change. -/
structure EmutlsObject where
  size : Nat
  alignment : Nat
  initializer : Option (List UInt8)
deriving DecidableEq, Repr

/-- A block from `malloc`, and the aligned address in it. -/
structure Storage where
  allocation : Nat
  length : Nat
  address : Nat
deriving DecidableEq, Repr

structure EmutlsArray where
  capacity : Nat
  entries : Nat → Option Storage

/-- `none` is a `tls_failure`, which never returns. -/
def emutlsArraySize (capacity : Nat) : Option Nat :=
  if capacity = 0 ∨ capacity - 1 > (sizeMax - 2 * pointerSize) / pointerSize then none
  else some (2 * pointerSize + (capacity - 1) * pointerSize)

def allocateEmutlsArray (capacity : Nat) : Option EmutlsArray :=
  (emutlsArraySize capacity).map fun _ => ⟨capacity, fun _ => none⟩

/-- What `realloc` leaves behind the old entries is `garbage`. -/
def growEmutlsArray (array : EmutlsArray) (offset : Nat) (garbage : Nat → Option Storage) :
    Option EmutlsArray :=
  let oldCapacity := array.capacity
  let doubled := if oldCapacity ≤ sizeMax / 2 then oldCapacity * 2 else offset
  if doubled < offset ∧ offset > sizeMax - 32 then none
  else
    let newCapacity := if doubled < offset then offset + 32 else doubled
    (emutlsArraySize newCapacity).map fun _ =>
      let grown := fun i => if i < oldCapacity then array.entries i else garbage i
      ⟨newCapacity, fun i => if oldCapacity ≤ i ∧ i < newCapacity then none else grown i⟩

/-- Rounded up to a multiple of a power of two. -/
def alignUp (address alignment : Nat) : Nat := (address + alignment - 1) / alignment * alignment

/-- The storage that is put into the block at `allocation`, and its first contents. -/
def allocateEmutlsObject (object : EmutlsObject) (allocation : Nat) :
    Option (Storage × List UInt8) :=
  if object.alignment = 0 ∨ object.alignment &&& (object.alignment - 1) ≠ 0 ∨
      object.alignment - 1 > sizeMax - pointerSize ∨
      object.size > sizeMax - pointerSize - (object.alignment - 1) then none
  else
    some (⟨allocation, object.size + pointerSize + object.alignment - 1,
        alignUp (allocation + pointerSize) object.alignment⟩,
      match object.initializer with
      | some bytes => bytes.take object.size
      | none => List.replicate object.size 0)

inductive Context
  | startup
  | thread (t : ThreadId)
deriving DecidableEq, Repr

/-- Where a context is in `__emutls_get_address`. -/
inductive Call
  | idle
  | loaded (object : ObjectId) (offset : Nat)
  | located (object : ObjectId) (offset : Nat)
deriving DecidableEq, Repr

/-- `heap` has the blocks of the objects. `given` is what each thread has been handed out since it
was created, for the proofs only; the startup context counts as the application thread. -/
structure Tls where
  offset : ObjectId → Nat := fun _ => 0
  emutlsObjectCount : Nat := 0
  emutls : Context → Option EmutlsArray := fun _ => none
  heap : List Storage := []
  call : Context → Call := fun _ => .idle
  alive : ThreadId → Bool := fun _ => false
  adopted : Bool := false
  started : Bool := false
  given : ThreadId → ObjectId → Option Storage := fun _ _ => none

def initial : Tls := {}

/-- The thread that a context is, or will be. -/
def Context.owner : Context → ThreadId
  | .startup => applicationThread
  | .thread t => t

/-- The context runs code. -/
def Tls.runs (s : Tls) : Context → Bool
  | .startup => !s.started
  | .thread t => s.started && s.alive t

def Storage.Apart (a b : Storage) : Prop :=
  a.allocation + a.length ≤ b.allocation ∨ b.allocation + b.length ≤ a.allocation

instance (a b : Storage) : Decidable (a.Apart b) := inferInstanceAs (Decidable (_ ∨ _))

/-- The guarded part of `emutls_offset`. -/
def Tls.assignOffset (s : Tls) (object : ObjectId) : Option (Tls × Nat) :=
  if s.offset object ≠ 0 then some (s, s.offset object)
  else if s.emutlsObjectCount = sizeMax then none
  else
    some ({ s with
        emutlsObjectCount := s.emutlsObjectCount + 1
        offset := Function.update s.offset object (s.emutlsObjectCount + 1) },
      s.emutlsObjectCount + 1)

/-- The array with room for the offset. -/
def ensureArray (array : Option EmutlsArray) (offset : Nat) (garbage : Nat → Option Storage) :
    Option EmutlsArray :=
  match array with
  | none => if offset > sizeMax - 32 then none else allocateEmutlsArray (offset + 32)
  | some array =>
    if offset > array.capacity then growEmutlsArray array offset garbage else some array

/-- The storage that the call returns, and its first contents if the call has created it. `malloc`
gives a block apart from all others. -/
def Tls.getAddress (objects : ObjectId → EmutlsObject) (s : Tls) (c : Context) (object : ObjectId)
    (offset allocation : Nat) (garbage : Nat → Option Storage) :
    Option (Tls × Storage × Option (List UInt8)) :=
  (ensureArray (s.emutls c) offset garbage).bind fun array =>
    match array.entries (offset - 1) with
    | some storage =>
      some ({ s with emutls := Function.update s.emutls c (some array) }, storage, none)
    | none =>
      (allocateEmutlsObject (objects object) allocation).bind fun (storage, contents) =>
        if s.heap.all fun other => storage.Apart other then
          let entries := Function.update array.entries (offset - 1) (some storage)
          some ({ s with
              emutls := Function.update s.emutls c (some ⟨array.capacity, entries⟩)
              heap := storage :: s.heap }, storage, some contents)
        else none

/-- The end of `__emutls_get_address`. -/
def Tls.finish (objects : ObjectId → EmutlsObject) (s : Tls) (c : Context) (allocation : Nat)
    (garbage : Nat → Option Storage) : Option (Tls × Storage × Option (List UInt8)) :=
  match s.call c with
  | .located object offset =>
    (s.getAddress objects c object offset allocation garbage).map fun (s, storage, created) =>
      ({ s with
          call := Function.update s.call c .idle
          given := Function.update s.given c.owner
            (Function.update (s.given c.owner) object (some storage)) }, storage, created)
  | _ => none

/-- Frees the storage of the array's entries, and the array. -/
def Tls.destroyEmutls (s : Tls) (c : Context) : Tls :=
  match s.emutls c with
  | none => s
  | some array =>
    { s with
      heap := s.heap.filter fun block =>
        !(List.range array.capacity).any fun i =>
          (array.entries i).any fun storage => storage.allocation = block.allocation
      emutls := Function.update s.emutls c none }

def Tls.adoptStartup (s : Tls) : Tls :=
  let s := s.destroyEmutls (.thread applicationThread)
  { s with
    emutls := Function.update
      (Function.update s.emutls (.thread applicationThread) (s.emutls .startup)) .startup none
    adopted := true }

def Tls.threadDelete (s : Tls) (t : ThreadId) : Tls :=
  let s := s.destroyEmutls (.thread t)
  { s with
    alive := Function.update s.alive t false
    call := Function.update s.call (.thread t) .idle
    given := Function.update s.given t fun _ => none }

inductive Action
  | threadCreate (t : ThreadId)
  | adoptStartup
  | start
  | call (c : Context) (object : ObjectId)
  | offset (c : Context)
  | finish (c : Context) (allocation : Nat) (garbage : Nat → Option Storage)
  | threadDelete (t : ThreadId)

def step (objects : ObjectId → EmutlsObject) (s : Tls) : Action → Option Tls
  | .threadCreate t =>
    if s.alive t then none
    else
      some { s with
        alive := Function.update s.alive t true
        emutls := Function.update s.emutls (.thread t) none }
  | .adoptStartup =>
    if s.alive applicationThread ∧ !s.adopted ∧ !s.started ∧ s.call .startup = .idle then
      some s.adoptStartup
    else none
  | .start =>
    if s.adopted ∧ s.call .startup = .idle then some { s with started := true } else none
  | .call c object =>
    if s.runs c ∧ s.call c = .idle then
      some { s with call := Function.update s.call c (.loaded object (s.offset object)) }
    else none
  | .offset c =>
    match s.call c with
    | .loaded object 0 =>
      (s.assignOffset object).map fun (s, offset) =>
        { s with call := Function.update s.call c (.located object offset) }
    | .loaded object offset =>
      some { s with call := Function.update s.call c (.located object offset) }
    | _ => none
  | .finish c allocation garbage => (s.finish objects c allocation garbage).map (·.1)
  | .threadDelete t => if s.started ∧ s.alive t then some (s.threadDelete t) else none

end SimPLCity.EmulatedTls
