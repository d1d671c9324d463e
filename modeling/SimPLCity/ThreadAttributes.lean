import Mathlib.Data.List.Basic

/-! The attributes that a thread publishes for the threads that it creates. Copies of callables and
arguments are programs that may do the same. Their moves and destructors use no attributes. -/

namespace SimPLCity.ThreadAttributes

structure Attributes where
  priority : Int := -1
  stackSize : Nat := 0
deriving DecidableEq, Repr

inductive Failure
  | badAlloc
  | systemError (error : Nat)
  | thrown
deriving DecidableEq, Repr

/-- A call of `thread_create`. -/
structure ThreadCreate where
  attributes : Attributes
  error : Nat
deriving DecidableEq, Repr

/-- `pending` is the thread's `pending_attributes`, `log` is for the proofs only. -/
structure World where
  pending : Option Attributes := none
  log : List ThreadCreate := []

/-- Code that may throw. -/
abbrev Code := World → Except Failure Unit × World

def andThen (first second : Code) : Code := fun w =>
  match first w with
  | (.ok (), w') => second w'
  | (.error failure, w') => (.error failure, w')

def publishAttributes (attributes : Attributes) (w : World) : World :=
  { w with pending := some attributes }

def consumeAttributes (w : World) : Option Attributes × World :=
  (w.pending, { w with pending := none })

def enterScope (attributes : Attributes) (w : World) : Option Attributes × World :=
  let (previous, w) := consumeAttributes w
  (previous, publishAttributes attributes w)

def leaveScope (previous : Option Attributes) (w : World) : World :=
  let (_, w) := consumeAttributes w
  match previous with
  | some attributes => publishAttributes attributes w
  | none => w

/-- The destructor of the scope runs however the body ends. -/
def pendingAttributesScope (attributes : Attributes) (body : Code) : Code := fun w =>
  let (previous, inner) := enterScope attributes w
  let (result, inner) := body inner
  (result, leaveScope previous inner)

/-- What a construction gets: memory for the copies of a factory, for the stop state of a
`std::jthread` and for the state of a `std::thread`, and the result of `thread_create`. -/
structure Resources where
  storage : Bool := true
  stopState : Bool := true
  threadState : Bool := true
  error : Nat := 0
deriving DecidableEq, Repr

def allocate (available : Bool) : Code := fun w =>
  (if available then .ok () else .error .badAlloc, w)

def startThread (error : Nat) : Code := fun w =>
  let (attributes, w) := consumeAttributes w
  (if error = 0 then .ok () else .error (.systemError error),
    { w with log := w.log ++ [⟨attributes.getD {}, error⟩] })

/-- The callable and the arguments are copied into the new state. -/
def stdThread (resources : Resources) (copies : Code) : Code :=
  andThen (allocate resources.threadState) (andThen copies (startThread resources.error))

def stdJthread (resources : Resources) (copies : Code) : Code :=
  andThen (allocate resources.stopState) (stdThread resources copies)

/-- `prepare_task` and `prepare_stoppable_task`. -/
def prepareTask (resources : Resources) (copies : Code) : Code :=
  andThen (allocate resources.storage) copies

def moveTask : Code := fun w => (.ok (), w)

def create (resources : Resources) (attributes : Attributes) (copies : Code) : Code :=
  andThen (prepareTask resources copies)
    (pendingAttributesScope attributes (stdThread resources moveTask))

def createJthread (resources : Resources) (attributes : Attributes) (copies : Code) : Code :=
  andThen (prepareTask resources copies)
    (pendingAttributesScope attributes (stdJthread resources moveTask))

/-- What a thread does. `copies` is what the copy constructors of a construction do. -/
inductive Program
  | done
  | throws
  | publish (attributes : Attributes) (rest : Program)
  | thread (resources : Resources) (copies rest : Program)
  | jthread (resources : Resources) (copies rest : Program)
  | create (resources : Resources) (attributes : Attributes) (copies rest : Program)
  | createJthread (resources : Resources) (attributes : Attributes) (copies rest : Program)
  | attempt (body rest : Program)
deriving DecidableEq, Repr

def Program.run : Program → Code
  | .done => fun w => (.ok (), w)
  | .throws => fun w => (.error .thrown, w)
  | .publish attributes rest => fun w => rest.run (publishAttributes attributes w)
  | .thread resources copies rest => andThen (stdThread resources copies.run) rest.run
  | .jthread resources copies rest => andThen (stdJthread resources copies.run) rest.run
  | .create resources attributes copies rest =>
    andThen (ThreadAttributes.create resources attributes copies.run) rest.run
  | .createJthread resources attributes copies rest =>
    andThen (ThreadAttributes.createJthread resources attributes copies.run) rest.run
  | .attempt body rest => fun w => rest.run (body.run w).2

/-- A construction of a thread, as its caller sees it: the attributes that a factory call is given,
and whether there is memory for what is allocated before the copies are made and after. -/
structure Construction where
  own : Option Attributes
  before : Bool
  after : Bool
  error : Nat
  copies : Program
  rest : Program

def Program.construction : Program → Option Construction
  | .thread r copies rest => some ⟨none, r.threadState, true, r.error, copies, rest⟩
  | .jthread r copies rest => some ⟨none, r.stopState && r.threadState, true, r.error, copies, rest⟩
  | .create r own copies rest => some ⟨some own, r.storage, r.threadState, r.error, copies, rest⟩
  | .createJthread r own copies rest =>
    some ⟨some own, r.storage, r.stopState && r.threadState, r.error, copies, rest⟩
  | .done | .throws | .publish .. | .attempt .. => none

/-- A factory call has its own attributes, any other construction the latest publication. -/
def Construction.attributes (c : Construction) (pending : Option Attributes) : Attributes :=
  c.own.getD (pending.getD {})

/-- A factory call leaves the publication, any other construction consumes it. -/
def Construction.leaves (c : Construction) (pending : Option Attributes) : Option Attributes :=
  c.own.bind fun _ => pending

/-- What a program should do, with `pending` as the latest publication that has not been consumed:
the calls of `thread_create`, the result and the publication that it leaves. There is no slot here
and no scope. -/
inductive Follows : Program → Option Attributes → List ThreadCreate → Except Failure Unit →
    Option Attributes → Prop
  | done {pending} : Follows .done pending [] (.ok ()) pending
  | throws {pending} : Follows .throws pending [] (.error .thrown) pending
  | publish {attributes rest pending calls result last} :
    Follows rest (some attributes) calls result last →
    Follows (.publish attributes rest) pending calls result last
  | attempt {body rest pending calls ended middle more result last} :
    Follows body pending calls ended middle → Follows rest middle more result last →
    Follows (.attempt body rest) pending (calls ++ more) result last
  | noMemory {program c pending} :
    program.construction = some c → c.before = false →
    Follows program pending [] (.error .badAlloc) pending
  | copiesFail {program c pending calls failure last} :
    program.construction = some c → c.before = true →
    Follows c.copies pending calls (.error failure) last →
    Follows program pending calls (.error failure) last
  | noState {program c pending calls middle} :
    program.construction = some c → c.before = true →
    Follows c.copies pending calls (.ok ()) middle → c.after = false →
    Follows program pending calls (.error .badAlloc) middle
  | refused {program c pending calls middle} :
    program.construction = some c → c.before = true →
    Follows c.copies pending calls (.ok ()) middle → c.after = true → c.error ≠ 0 →
    Follows program pending (calls ++ [⟨c.attributes middle, c.error⟩])
      (.error (.systemError c.error)) (c.leaves middle)
  | created {program c pending calls middle more result last} :
    program.construction = some c → c.before = true →
    Follows c.copies pending calls (.ok ()) middle → c.after = true → c.error = 0 →
    Follows c.rest (c.leaves middle) more result last →
    Follows program pending (calls ++ ⟨c.attributes middle, 0⟩ :: more) result last

/-- The code does what the relation says of the program. -/
def Sound (program : Program) (code : Code) : Prop :=
  ∀ w, ∃ calls, (code w).2.log = w.log ++ calls ∧
    Follows program w.pending calls (code w).1 (code w).2.pending

/-- The thread is created, or `thread_create` refuses it. -/
def Construction.call (c : Construction) (w : World) : Except Failure Unit × World :=
  (if c.error = 0 then .ok () else .error (.systemError c.error),
    ⟨c.leaves w.pending, w.log ++ [⟨c.attributes w.pending, c.error⟩]⟩)

/-- Where the code of a construction can end. -/
def Constructs (c : Construction) (code : Code) : Prop :=
  ∀ w, c.before = false ∧ code w = (.error .badAlloc, w) ∨
    c.before = true ∧ ((∃ failure w', c.copies.run w = (.error failure, w') ∧
      code w = (.error failure, w')) ∨
      ∃ w', c.copies.run w = (.ok (), w') ∧
        (c.after = false ∧ code w = (.error .badAlloc, w') ∨
          c.after = true ∧ code w = c.call w'))

theorem andThen_ok {first : Code} {w w' : World} (h : first w = (.ok (), w')) (second : Code) :
    andThen first second w = second w' := by
  unfold andThen
  rw [h]

theorem andThen_error {first : Code} {w w' : World} {failure : Failure}
    (h : first w = (.error failure, w')) (second : Code) :
    andThen first second w = (.error failure, w') := by
  unfold andThen
  rw [h]

theorem Constructs.sound {program : Program} {c : Construction} {code : Code}
    (hc : program.construction = some c) (h : Constructs c code) (hcopies : Sound c.copies c.copies.run)
    (hrest : Sound c.rest c.rest.run) : Sound program (andThen code c.rest.run) := by
  intro w
  obtain ⟨calls, hlog, hfollows⟩ := hcopies w
  rcases h w with ⟨hbefore, hcode⟩ | ⟨hbefore, ⟨failure, w', hw', hcode⟩ | ⟨w', hw', hended⟩⟩
  · rw [andThen_error hcode]
    exact ⟨[], (List.append_nil _).symm, .noMemory hc hbefore⟩
  · rw [andThen_error hcode]
    rw [hw'] at hlog hfollows
    exact ⟨calls, hlog, .copiesFail hc hbefore hfollows⟩
  rw [hw'] at hlog hfollows
  rcases hended with ⟨hafter, hcode⟩ | ⟨hafter, hcode⟩
  · rw [andThen_error hcode]
    exact ⟨calls, hlog, .noState hc hbefore hfollows hafter⟩
  unfold Construction.call at hcode
  by_cases herror : c.error = 0
  · rw [if_pos herror] at hcode
    rw [andThen_ok hcode]
    obtain ⟨more, hmore, hlast⟩ := hrest ⟨c.leaves w'.pending, w'.log ++ [⟨c.attributes w'.pending, c.error⟩]⟩
    refine ⟨calls ++ ⟨c.attributes w'.pending, 0⟩ :: more, ?_,
      .created hc hbefore hfollows hafter herror hlast⟩
    rw [hmore, hlog, herror]
    simp
  · rw [if_neg herror] at hcode
    rw [andThen_error hcode]
    refine ⟨calls ++ [⟨c.attributes w'.pending, c.error⟩], ?_,
      .refused hc hbefore hfollows hafter herror⟩
    rw [← List.append_assoc, ← hlog]

/-- A factory call whose copies publish and create a thread, and a thread after it. -/
def nested : Program :=
  .publish { priority := 5 }
    (.create {} { priority := 1 }
      (.thread {} .done (.publish { priority := 6 } .done))
      (.attempt (.createJthread { threadState := false } { priority := 2 } .done .done)
        (.thread {} .done .done)))

end SimPLCity.ThreadAttributes
