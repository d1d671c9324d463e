import SimPLCity.EtherTypes
import Mathlib.Algebra.GroupWithZero.Nat

/-! `Ethernet::receive` of the two backends. The reads of the device, the polls of the socket and
the clock are scripts; each result comes with the caller's buffer and the number of frames that the
call has taken. -/

namespace SimPLCity.FrameReceive
open EtherTypes

inductive Errc
  | invalidArgument | notConnected | noBufferSpace | timedOut | messageSize
  | system (errno : Nat)
deriving DecidableEq, Repr

structure Outcome where
  result : Except Errc Nat
  frame : Frame
  taken : Nat

/-- The frame is one that the configured type lets through. -/
def passes (receiveEtherType : Option EtherType) (received : Frame) : Bool :=
  receiveEtherType.isNone || frameEtherType received == receiveEtherType

/-- A fragment of a packet: what its buffer holds, and how many bytes of it count. -/
structure Fragment where
  buffer : List UInt8
  len : Nat
deriving DecidableEq, Repr

def Fragment.bytes (f : Fragment) : List UInt8 := f.buffer.take f.len

def packetSize (packet : List Fragment) : Nat := (packet.map Fragment.len).sum

/-- The loop over the fragments that copies them to `output` in the frame. -/
def copyFragments (frame : Frame) (output : Nat) : List Fragment → Frame
  | [] => frame
  | f :: packet =>
    copyFragments (frame.take output ++ f.bytes ++ frame.drop (output + f.len)) (output + f.len) packet

/-- What the loop does with a packet: it returns, or goes on to look at the clock. -/
def inspect (receiveEtherType : Option EtherType) (frame : Frame) (packet : List Fragment) :
    Option (Except Errc Nat) × Frame :=
  let size := packetSize packet
  if size > maxFrameSize ∨ frame.length < size then (some (.error .noBufferSpace), frame)
  else
    let frame := copyFragments frame 0 packet
    if passes receiveEtherType (frame.take size) then (some (.ok size), frame) else (none, frame)

/-- An iteration: the packet that `HAL_ETH_ReadData` has handed over, which is empty if it has none,
and the ticks since the call. -/
structure Read where
  packet : List Fragment
  elapsed : Nat

def Read.expired (timeoutTicks : Nat) (r : Read) : Bool :=
  timeoutTicks = 0 || r.elapsed ≥ timeoutTicks

/-- `none` while the script leaves the call waiting. -/
def readLoop (receiveEtherType : Option EtherType) (timeoutTicks : Nat) (frame : Frame)
    (taken : Nat) : List Read → Option Outcome
  | [] => none
  | r :: rest =>
    if r.packet = [] then
      if r.expired timeoutTicks then some ⟨.error .timedOut, frame, taken⟩
      else readLoop receiveEtherType timeoutTicks frame taken rest
    else
      match inspect receiveEtherType frame r.packet with
      | (some result, frame) => some ⟨result, frame, taken + 1⟩
      | (none, frame) =>
        if r.expired timeoutTicks then some ⟨.error .timedOut, frame, taken + 1⟩
        else readLoop receiveEtherType timeoutTicks frame (taken + 1) rest

def timeoutMilliseconds (timeout : Int) : Nat :=
  if timeout ≤ 0 then 0 else min timeout.toNat (2 ^ 32 - 1)

def stm32Receive (receiveEtherType : Option EtherType) (running : Bool) (frame : Frame)
    (timeout : Int) (reads : List Read) : Option Outcome :=
  if frame = [] ∨ timeout < 0 then some ⟨.error .invalidArgument, frame, 0⟩
  else if !running then some ⟨.error .notConnected, frame, 0⟩
  else readLoop receiveEtherType (timeoutMilliseconds timeout) frame 0 reads

abbrev eintr : Nat := 4

abbrev eagain : Nat := 11

/-- What `recvfrom` gives. -/
inductive Received
  | failed (errno : Nat)
  | packet (outgoing : Bool) (received : Frame)

/-- An iteration: `poll` fails, runs into the deadline, or finds the socket ready. -/
inductive Poll
  | failed (errno : Nat)
  | expired
  | ready (received : Received)

def pollLoop (receiveEtherType : Option EtherType) (frame : Frame) (taken : Nat) :
    List Poll → Option Outcome
  | [] => none
  | .failed errno :: _ => some ⟨.error (.system errno), frame, taken⟩
  | .expired :: _ => some ⟨.error .timedOut, frame, taken⟩
  | .ready (.failed errno) :: rest =>
    if errno = eintr ∨ errno = eagain then pollLoop receiveEtherType frame taken rest
    else some ⟨.error (.system errno), frame, taken⟩
  | .ready (.packet true _) :: rest => pollLoop receiveEtherType frame taken rest
  | .ready (.packet false received) :: rest =>
    if received.length > maxFrameSize then some ⟨.error .messageSize, frame, taken + 1⟩
    else if !passes receiveEtherType received then pollLoop receiveEtherType frame (taken + 1) rest
    else if frame.length < received.length then some ⟨.error .noBufferSpace, frame, taken + 1⟩
    else some ⟨.ok received.length, received ++ frame.drop received.length, taken + 1⟩

def linuxReceive (receiveEtherType : Option EtherType) (running : Bool) (frame : Frame)
    (timeout : Int) (polls : List Poll) : Option Outcome :=
  if frame = [] ∨ timeout < 0 then some ⟨.error .invalidArgument, frame, 0⟩
  else if !running then some ⟨.error .notConnected, frame, 0⟩
  else pollLoop receiveEtherType frame 0 polls

theorem Fragment.length_bytes {f : Fragment} (h : f.len ≤ f.buffer.length) :
    f.bytes.length = f.len := by simp [Fragment.bytes, h]

@[simp] theorem packetSize_nil : packetSize [] = 0 := rfl

@[simp] theorem packetSize_cons (f : Fragment) (packet : List Fragment) :
    packetSize (f :: packet) = f.len + packetSize packet := by simp [packetSize]

/-- What a packet holds, in the order of its fragments. -/
def contents (packet : List Fragment) : List UInt8 := packet.flatMap Fragment.bytes

theorem length_contents {packet : List Fragment} (h : ∀ f ∈ packet, f.len ≤ f.buffer.length) :
    (contents packet).length = packetSize packet := by
  induction packet with
  | nil => rfl
  | cons f packet ih =>
    rw [contents, List.flatMap_cons, List.length_append, Fragment.length_bytes (h f (by simp)),
      packetSize_cons, ← contents, ih fun g hg => h g (List.mem_cons_of_mem f hg)]

theorem copyFragments_eq (frame : Frame) (output : Nat) (packet : List Fragment)
    (hlen : ∀ f ∈ packet, f.len ≤ f.buffer.length)
    (hfit : output + packetSize packet ≤ frame.length) :
    copyFragments frame output packet =
      frame.take output ++ contents packet ++ frame.drop (output + packetSize packet) := by
  induction packet generalizing frame output with
  | nil => simp [copyFragments, contents]
  | cons f packet ih =>
    rw [packetSize_cons] at hfit
    have hf : f.bytes.length = f.len := Fragment.length_bytes (hlen f (by simp))
    have hhead : (frame.take output ++ f.bytes).length = output + f.len := by
      rw [List.length_append, hf, List.length_take, Nat.min_eq_left (by omega)]
    have hlength : (frame.take output ++ f.bytes ++ frame.drop (output + f.len)).length =
        frame.length := by
      rw [List.length_append, hhead, List.length_drop]
      omega
    rw [copyFragments, ih _ _ (fun g hg => hlen g (List.mem_cons_of_mem f hg)) (by omega),
      List.take_left' hhead, List.drop_append, hhead,
      List.drop_eq_nil_of_le (by omega : _ ≤ output + f.len + packetSize packet), List.nil_append,
      List.drop_drop, packetSize_cons, contents, contents, List.flatMap_cons]
    simp only [List.append_assoc]
    congr 4
    omega

end SimPLCity.FrameReceive
