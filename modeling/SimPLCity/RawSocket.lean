import SimPLCity.Runs
import Mathlib.Logic.Function.Basic

/-! The raw socket of the Linux Ethernet driver, and the threads that start, stop, transmit and
receive. A step takes or releases one mutex, makes one system call, or looks at the driver's fields
under the lifecycle mutex. What the frames hold is left to the answers of the system calls. -/

namespace SimPLCity.RawSocket

abbrev ThreadId := Nat

abbrev Fd := Nat

abbrev MacAddress := List UInt8

structure Configuration where
  interfaceName : List UInt8
  receiveEtherType : Option UInt16
  promiscuous : Bool
deriving DecidableEq, Repr

/-- `m_interfaceName.front()`: names of `IFNAMSIZ` and more are not copied. -/
def Configuration.front (configuration : Configuration) : UInt8 :=
  if configuration.interfaceName.length < 16 then configuration.interfaceName.headD 0 else 0

inductive Mutex
  | transmit
  | receive
  | lifecycle
deriving DecidableEq, Repr

inductive Direction
  | transmit
  | receive
deriving DecidableEq, Repr

def Direction.mutex : Direction → Mutex
  | .transmit => .transmit
  | .receive => .receive

/-- The system calls of `start` after the socket exists that it checks. -/
inductive Setup
  | bind
  | filter
  | membership
  | hardwareAddress
deriving DecidableEq, Repr

def Setup.next (configuration : Configuration) : Setup → Option Setup
  | .bind =>
    some (if configuration.receiveEtherType.isSome then .filter
      else if configuration.promiscuous then .membership else .hardwareAddress)
  | .filter => some (if configuration.promiscuous then .membership else .hardwareAddress)
  | .membership => some .hardwareAddress
  | .hardwareAddress => none

/-- What `transmit` or `receive` copies from the driver. The period is for the proofs only. -/
structure Taken where
  socket : Fd
  route : Option (Nat × MacAddress)
  period : Option Nat
deriving DecidableEq, Repr

inductive Outcome
  | success
  | error
deriving DecidableEq, Repr

/-- Where a thread is in a call. `locking` waits for the mutex of the phase, `leaving` releases what
is held, in this order. -/
inductive Call
  | idle
  | startLock
  | startCheck
  | startIndex
  | startSocket
  | startSetup (socket : Fd) (setup : Setup)
  | startClose (socket : Fd)
  | stopTransmit
  | stopReceive
  | stopLifecycle
  | stopCheck
  | stopClose (socket : Fd)
  | exchangeLock (direction : Direction)
  | exchangeLifecycle (direction : Direction)
  | exchangeCheck (direction : Direction)
  | exchangeUnlock (direction : Direction) (taken : Taken)
  | exchangePoll (direction : Direction) (taken : Taken)
  | exchangeFrame (direction : Direction) (taken : Taken)
  | leaving (held : List Mutex) (outcome : Outcome)
deriving DecidableEq, Repr

inductive Operation
  | start
  | stop
  | exchange (direction : Direction)
deriving DecidableEq, Repr

def Operation.first : Operation → Call
  | .start => .startLock
  | .stop => .stopTransmit
  | .exchange direction => .exchangeLock direction

/-- An open file of the process. Sockets of `start` are numbered as they are opened. -/
inductive File
  | socket (serial : Nat)
  | other
deriving DecidableEq, Repr

/-- `files` is the descriptor table of the process. The last four are for the proofs only: the
socket of the running period, how many sockets `start` has opened, what the driver has closed, and
the socket that the thread's last call has opened. -/
structure System where
  owner : Mutex → Option ThreadId := fun _ => none
  socket : Option Fd := none
  interfaceIndex : Nat := 0
  macAddress : MacAddress := List.replicate 6 0
  files : Fd → Option File
  call : ThreadId → Call := fun _ => .idle
  period : Option Nat := none
  opened : Nat := 0
  closed : List (Option File) := []
  mine : ThreadId → Option Nat := fun _ => none

/-- The driver after its construction, in a process that has other files open. -/
def initial (others : Fd → Bool) : System where
  files := fun fd => if others fd then some .other else none

inductive Answer
  | value (n : Nat)
  | address (bytes : MacAddress)
  | failed
  | again
  | timedOut
deriving DecidableEq, Repr

def System.goto (s : System) (t : ThreadId) (call : Call) : System :=
  { s with call := Function.update s.call t call }

def System.acquire (s : System) (t : ThreadId) (mutex : Mutex) (call : Call) : Option System :=
  if s.owner mutex = none then
    some { s.goto t call with owner := Function.update s.owner mutex (some t) }
  else none

def System.release (s : System) (t : ThreadId) (mutex : Mutex) (call : Call) : System :=
  { s.goto t call with owner := Function.update s.owner mutex none }

/-- The number is free again, also when `close` reports an error. -/
def System.close (s : System) (fd : Fd) : System :=
  { s with files := Function.update s.files fd none, closed := s.files fd :: s.closed }

/-- `socket`, which gives a number that is free. -/
def System.openSocket (s : System) (t : ThreadId) (fd : Fd) : System :=
  { s with
    files := Function.update s.files fd (some (.socket s.opened))
    opened := s.opened + 1
    mine := Function.update s.mine t (some s.opened) }

def System.run (s : System) (t : ThreadId) (bytes : MacAddress) (fd : Fd) : System :=
  { s with macAddress := bytes, socket := some fd, period := s.mine t }

def System.halt (s : System) : System :=
  { s with socket := none, interfaceIndex := 0, period := none }

def System.take (s : System) (direction : Direction) (fd : Fd) : Taken where
  socket := fd
  route :=
    match direction with
    | .transmit => some (s.interfaceIndex, s.macAddress)
    | .receive => none
  period := s.period

def System.advanceStart (configuration : Configuration) (s : System) (t : ThreadId) :
    Call → Answer → Option System
  | .startLock, _ => s.acquire t .lifecycle .startCheck
  | .startCheck, _ =>
    if s.socket ≠ none then some (s.goto t (.leaving [.lifecycle] .success))
    else if configuration.front = 0 then some (s.goto t (.leaving [.lifecycle] .error))
    else some (s.goto t .startIndex)
  | .startIndex, .value index =>
    let s := { s with interfaceIndex := index }
    if index = 0 then some (s.goto t (.leaving [.lifecycle] .error))
    else some (s.goto t .startSocket)
  | .startSocket, .failed => some (s.goto t (.leaving [.lifecycle] .error))
  | .startSocket, .value fd =>
    if s.files fd = none then some ((s.openSocket t fd).goto t (.startSetup fd .bind)) else none
  | .startSetup fd _, .failed => some (s.goto t (.startClose fd))
  | .startSetup fd .hardwareAddress, .address bytes =>
    some ((s.run t bytes fd).goto t (.leaving [.lifecycle] .success))
  | .startSetup fd setup, .value _ =>
    (setup.next configuration).map fun setup => s.goto t (.startSetup fd setup)
  | .startClose fd, _ => some ((s.close fd).goto t (.leaving [.lifecycle] .error))
  | _, _ => none

def System.advanceStop (s : System) (t : ThreadId) : Call → Answer → Option System
  | .stopTransmit, _ => s.acquire t .transmit .stopReceive
  | .stopReceive, _ => s.acquire t .receive .stopLifecycle
  | .stopLifecycle, _ => s.acquire t .lifecycle .stopCheck
  | .stopCheck, _ =>
    match s.socket with
    | none => some (s.goto t (.leaving [.lifecycle, .receive, .transmit] .success))
    | some fd => some (s.halt.goto t (.stopClose fd))
  | .stopClose fd, .failed =>
    some ((s.close fd).goto t (.leaving [.lifecycle, .receive, .transmit] .error))
  | .stopClose fd, _ =>
    some ((s.close fd).goto t (.leaving [.lifecycle, .receive, .transmit] .success))
  | _, _ => none

/-- `transmit` and `receive` after the checks of their arguments. Only `receive` has a loop. -/
def System.advanceExchange (s : System) (t : ThreadId) : Call → Answer → Option System
  | .exchangeLock direction, _ => s.acquire t direction.mutex (.exchangeLifecycle direction)
  | .exchangeLifecycle direction, _ => s.acquire t .lifecycle (.exchangeCheck direction)
  | .exchangeCheck direction, _ =>
    match s.socket with
    | none => some (s.goto t (.leaving [.lifecycle, direction.mutex] .error))
    | some fd => some (s.goto t (.exchangeUnlock direction (s.take direction fd)))
  | .exchangeUnlock direction taken, _ =>
    some (s.release t .lifecycle (.exchangePoll direction taken))
  | .exchangePoll _ _, .again => some s
  | .exchangePoll direction taken, .value _ => some (s.goto t (.exchangeFrame direction taken))
  | .exchangePoll direction _, _ => some (s.goto t (.leaving [direction.mutex] .error))
  | .exchangeFrame .receive taken, .again => some (s.goto t (.exchangePoll .receive taken))
  | .exchangeFrame direction _, .value _ => some (s.goto t (.leaving [direction.mutex] .success))
  | .exchangeFrame direction _, _ => some (s.goto t (.leaving [direction.mutex] .error))
  | _, _ => none

def System.leave (s : System) (t : ThreadId) : List Mutex → Outcome → System
  | [], _ => s.goto t .idle
  | mutex :: held, outcome => s.release t mutex (.leaving held outcome)

inductive Action
  | call (t : ThreadId) (operation : Operation)
  | advance (t : ThreadId) (answer : Answer)
  | openOther (fd : Fd)
  | closeOther (fd : Fd)
deriving DecidableEq, Repr

def step (configuration : Configuration) (s : System) : Action → Option System
  | .call t operation =>
    if s.call t = .idle then
      some { s.goto t operation.first with mine := Function.update s.mine t none }
    else none
  | .advance t answer =>
    match s.call t with
    | .leaving held outcome => some (s.leave t held outcome)
    | call =>
      s.advanceStart configuration t call answer <|> s.advanceStop t call answer <|>
        s.advanceExchange t call answer
  | .openOther fd =>
    if s.files fd = none then some { s with files := Function.update s.files fd (some .other) }
    else none
  | .closeOther fd =>
    if s.files fd = some .other then some { s with files := Function.update s.files fd none }
    else none

end SimPLCity.RawSocket
