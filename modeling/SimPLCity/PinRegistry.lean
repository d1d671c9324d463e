import SimPLCity.Runs
import Mathlib.Logic.Function.Basic

/-! The GPIO pins of the STM32: the factory claims pins, and inputs with an edge share the interrupt
lines. The calls are made one after the other. -/

namespace SimPLCity.PinRegistry

abbrev ObjectId := Nat

abbrev Callback := Nat

/-- The underlying values; the ports are A to K. -/
structure Pin where
  port : UInt8
  number : UInt8
deriving DecidableEq, Repr

inductive Edge
  | none
  | rising
  | falling
  | both
deriving DecidableEq, Repr

inductive Pull
  | none
  | up
  | down
deriving DecidableEq, Repr

inductive Speed
  | low
  | medium
  | high
  | veryHigh
deriving DecidableEq, Repr

inductive OutputType
  | pushPull
  | openDrain
deriving DecidableEq, Repr

inductive Level
  | low
  | high
deriving DecidableEq, Repr

structure InputConfiguration where
  pin : Pin
  pull : Pull := .none
  edge : Edge := .none
deriving DecidableEq, Repr

structure OutputConfiguration where
  pin : Pin
  initialLevel : Level := .low
  type : OutputType := .pushPull
  pull : Pull := .none
  speed : Speed := .low
deriving DecidableEq, Repr

inductive Interrupt
  | exti0
  | exti1
  | exti2
  | exti3
  | exti4
  | exti9to5
  | exti15to10
deriving DecidableEq, Repr

/-- Pins 5 to 9 and 10 to 15 share a line. -/
def interruptFor : Nat → Interrupt
  | 0 => .exti0
  | 1 => .exti1
  | 2 => .exti2
  | 3 => .exti3
  | 4 => .exti4
  | 5 | 6 | 7 | 8 | 9 => .exti9to5
  | _ => .exti15to10

inductive Mode
  | input
  | itRising
  | itFalling
  | itRisingFalling
  | outputPushPull
  | outputOpenDrain
deriving DecidableEq, Repr

def inputMode : Edge → Mode
  | .rising => .itRising
  | .falling => .itFalling
  | .both => .itRisingFalling
  | .none => .input

def outputMode : OutputType → Mode
  | .openDrain => .outputOpenDrain
  | .pushPull => .outputPushPull

/-- What `HAL_GPIO_Init` sets of a pin. -/
structure Setup where
  mode : Mode
  pull : Pull
  speed : Speed
deriving DecidableEq, Repr

structure GpioInput where
  configuration : InputConfiguration
  interrupt : Interrupt
  edgeCallback : Option Callback := none
deriving DecidableEq, Repr

inductive Object
  | input (input : GpioInput)
  | output (configuration : OutputConfiguration)
deriving DecidableEq, Repr

def Object.pin : Object → Pin
  | .input i => i.configuration.pin
  | .output configuration => configuration.pin

/-- `owners`, `s_interruptRegistry`, the objects that live, the lines that the interrupt controller
has enabled, and what the pins are set to. -/
structure State where
  claimed : Nat → Bool := fun _ => false
  interruptRegistry : Nat → Option ObjectId := fun _ => none
  objects : ObjectId → Option Object := fun _ => none
  fresh : ObjectId := 0
  enabled : Interrupt → Bool := fun _ => false
  setup : Nat → Option Setup := fun _ => none
  level : Nat → Level := fun _ => .low

def pinIndex (pin : Pin) : Nat := pin.port.toNat * 16 + pin.number.toNat

def valid (pin : Pin) : Bool := pin.port.toNat < 11 && pin.number.toNat < 16

/-- Whether there is memory for the object and for the control block of its `shared_ptr`. -/
inductive Allocation
  | succeeds
  | noObject
  | noControlBlock
deriving DecidableEq, Repr

inductive Outcome
  | created (id : ObjectId)
  | refused
  | badAlloc
  | done
deriving DecidableEq, Repr

namespace State

def interruptLineAvailable (s : State) (pin : Pin) : Bool :=
  pin.number.toNat < 16 && (s.interruptRegistry pin.number.toNat).isNone

/-- The object comes to life. -/
def place (s : State) (object : Object) : State :=
  { s with
    objects := Function.update s.objects s.fresh (some object)
    fresh := s.fresh + 1 }

def register (s : State) (number : Nat) (entry : Option ObjectId) : State :=
  { s with interruptRegistry := Function.update s.interruptRegistry number entry }

def enable (s : State) (interrupt : Interrupt) (on : Bool) : State :=
  { s with enabled := Function.update s.enabled interrupt on }

def configure (s : State) (pin : Pin) (setup : Option Setup) : State :=
  { s with setup := Function.update s.setup (pinIndex pin) setup }

/-- The object that the constructor makes. -/
def newInput (configuration : InputConfiguration) : GpioInput :=
  { configuration, interrupt := interruptFor configuration.pin.number.toNat }

/-- The constructor; `none` is `std::terminate`. -/
def constructInput (s : State) (configuration : InputConfiguration) : Option State :=
  let number := configuration.pin.number.toNat
  let input := newInput configuration
  let setup := some ⟨inputMode configuration.edge, configuration.pull, .low⟩
  let placed := s.place (.input input)
  if configuration.edge ≠ .none then
    if s.interruptLineAvailable configuration.pin then
      some (((placed.register number (some s.fresh)).configure configuration.pin setup).enable
        input.interrupt true)
    else none
  else some (placed.configure configuration.pin setup)

/-- Whether a registered input belongs to the line. -/
def groupStillUsed (s : State) (interrupt : Interrupt) : Bool :=
  (List.range 16).any fun number =>
    match s.interruptRegistry number with
    | none => false
    | some id =>
      match s.objects id with
      | some (.input input) => input.interrupt == interrupt
      | _ => false

/-- The line is disabled, and enabled again where another input uses it. -/
def unregister (s : State) (input : GpioInput) : State :=
  let s := (s.enable input.interrupt false).register input.configuration.pin.number.toNat none
  if s.groupStillUsed input.interrupt then s.enable input.interrupt true else s

def remove (s : State) (id : ObjectId) : State :=
  { s with objects := Function.update s.objects id none }

def destroyInput (s : State) (id : ObjectId) (input : GpioInput) : State :=
  let s := if input.configuration.edge ≠ .none then s.unregister input else s
  (s.configure input.configuration.pin none).remove id

def assign (s : State) (id : ObjectId) (object : Object) : State :=
  { s with objects := Function.update s.objects id (some object) }

/-- Disables the line while the callback is exchanged. -/
def setEdgeCallback (s : State) (id : ObjectId) (input : GpioInput) (callback : Option Callback) :
    State :=
  let object := Object.input { input with edgeCallback := callback }
  if input.configuration.edge = .none then s.assign id object
  else
    let restoreInterrupt := s.enabled input.interrupt
    let s := (s.enable input.interrupt false).assign id object
    if restoreInterrupt then s.enable input.interrupt true else s

def write (s : State) (pin : Pin) (level : Level) : State :=
  { s with level := Function.update s.level (pinIndex pin) level }

def constructOutput (s : State) (configuration : OutputConfiguration) : Option State :=
  let s := (s.place (.output configuration)).write configuration.pin configuration.initialLevel
  some (s.configure configuration.pin
    (some ⟨outputMode configuration.type, configuration.pull, configuration.speed⟩))

def destroyOutput (s : State) (id : ObjectId) (configuration : OutputConfiguration) : State :=
  (s.configure configuration.pin none).remove id

def destroy (s : State) (id : ObjectId) : Object → State
  | .input input => s.destroyInput id input
  | .output configuration => s.destroyOutput id configuration

def claim (s : State) (pin : Pin) (claimed : Bool) : State :=
  { s with claimed := Function.update s.claimed (pinIndex pin) claimed }

/-- The deleter of the `shared_ptr`. -/
def release (s : State) (id : ObjectId) (object : Object) : State :=
  (s.destroy id object).claim object.pin false

/-- `create_pin`: what the constructor does comes in as `construct`. Without memory for the control
block the deleter is called. -/
def createPin (s : State) (pin : Pin) (available : Bool) (object : Object)
    (construct : State → Option State) (allocation : Allocation) : Option (State × Outcome) :=
  if !valid pin then some (s, .refused)
  else if s.claimed (pinIndex pin) then some (s, .refused)
  else if !available then some (s, .refused)
  else if allocation = .noObject then some (s, .badAlloc)
  else
    (construct s).map fun constructed =>
      if allocation = .noControlBlock then (constructed.release s.fresh object, .badAlloc)
      else (constructed.claim pin true, .created s.fresh)

def createInput (s : State) (configuration : InputConfiguration) (allocation : Allocation) :
    Option (State × Outcome) :=
  s.createPin configuration.pin
    (configuration.edge = .none || s.interruptLineAvailable configuration.pin)
    (.input (newInput configuration)) (fun s => s.constructInput configuration) allocation

def createOutput (s : State) (configuration : OutputConfiguration) (allocation : Allocation) :
    Option (State × Outcome) :=
  s.createPin configuration.pin true (.output configuration)
    (fun s => s.constructOutput configuration) allocation

end State

inductive Operation
  | createInput (configuration : InputConfiguration) (allocation : Allocation)
  | createOutput (configuration : OutputConfiguration) (allocation : Allocation)
  | setEdgeCallback (id : ObjectId) (callback : Option Callback)
  | release (id : ObjectId)

/-- Only objects that live can be used and released. -/
def perform (s : State) : Operation → Option (State × Outcome)
  | .createInput configuration allocation => s.createInput configuration allocation
  | .createOutput configuration allocation => s.createOutput configuration allocation
  | .setEdgeCallback id callback =>
    match s.objects id with
    | some (.input input) => some (s.setEdgeCallback id input callback, .done)
    | _ => none
  | .release id =>
    match s.objects id with
    | some object => some (s.release id object, .done)
    | none => none

def step (s : State) (operation : Operation) : Option State := (perform s operation).map Prod.fst

end SimPLCity.PinRegistry
