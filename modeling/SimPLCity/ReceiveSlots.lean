import SimPLCity.FrameReceive
import SimPLCity.LinkedChain
import SimPLCity.Runs
import Mathlib.Logic.Function.Basic

/-! The receive slots of the STM32 backend. The HAL asks for buffers and gives back filled ones
through callbacks; `receive` takes the chain of a complete packet, copies it and releases its slots
one by one. -/

namespace SimPLCity.ReceiveSlots
open EtherTypes FrameReceive LinkedChain

abbrev ethRxDescCnt : Nat := 4

def rxSlotCount : Nat := ethRxDescCnt * 2

def ethDmaFrameBufferSize : Nat := 1536

/-- `ETH_BufferTypeDef`. A pointer to the link or to the data of a slot is the slot's number. -/
structure Link where
  buffer : Option Nat := none
  len : Nat := 0
  next : Option Nat := none
deriving DecidableEq, Repr

structure RxSlot where
  link : Link := {}
  data : List UInt8 := List.replicate ethDmaFrameBufferSize 0
  allocated : Bool := false
deriving DecidableEq, Repr

abbrev Slots := Nat → RxSlot

def findSlot (buffer : Option Nat) : Option Nat :=
  (List.range rxSlotCount).find? fun candidate => some candidate = buffer

def rxAllocateCallback (slots : Slots) : Slots × Option Nat :=
  match (List.range rxSlotCount).find? fun candidate => !(slots candidate).allocated with
  | some i => (Function.update slots i { slots i with allocated := true, link := {} }, some i)
  | none => (slots, none)

def setNext (slots : Slots) (link next : Option Nat) : Slots :=
  match link with
  | some i => Function.update slots i { slots i with link.next := next }
  | none => slots

/-- The slots, and the new `*start` and `*end`. -/
def rxLinkCallback (slots : Slots) (start stop buffer : Option Nat) (length : Nat) :
    Slots × Option Nat × Option Nat :=
  match findSlot buffer with
  | none => (slots, start, stop)
  | some i =>
    let slots := Function.update slots i { slots i with link := ⟨buffer, length, none⟩ }
    if start = none then (slots, some i, some i)
    else (setNext slots stop (some i), start, some i)

/-- One turn of the loop of `release_frame`: the slots and the next link. -/
def releaseFirst (slots : Slots) (first : Nat) : Slots × Option Nat :=
  let next := (slots first).link.next
  match (List.range rxSlotCount).find? fun candidate => candidate = first with
  | some i => (Function.update slots i { slots i with link := {}, allocated := false }, next)
  | none => (slots, next)

/-- Where `receive` is. -/
inductive Phase
  | idle
  | reading (frame : Frame)
  | holding (frame : Frame) (packet : Nat)
  | releasing (frame : Frame) (first : Option Nat) (result : Option (Except Errc Nat))
  | checking (frame : Frame)

/-- `lent`, `rxStart` and `rxEnd` are the HAL's. From `linked` on the fields are for the proofs only:
the fragments since the last complete packet, those of that packet, its slots, the released ones,
and how often each slot was handed out and released. -/
structure Driver where
  slots : Slots := fun _ => {}
  lent : List Nat := []
  rxStart : Option Nat := none
  rxEnd : Option Nat := none
  phase : Phase := .idle
  returned : Option (Except Errc Nat × Frame) := none
  linked : List Fragment := []
  packet : List Fragment := []
  obtained : List Nat := []
  released : List Nat := []
  handedOut : Nat → Nat := fun _ => 0
  takenBack : Nat → Nat := fun _ => 0

def initial : Driver := {}

def Driver.next (s : Driver) (i : Nat) : Option Nat := (s.slots i).link.next

/-- What a link says: its length, and the data that its buffer points to. -/
def Driver.fragment (s : Driver) (i : Nat) : Fragment :=
  ⟨((s.slots i).link.buffer.map fun j => (s.slots j).data).getD [], (s.slots i).link.len⟩

/-- The fragments of a packet; no chain is longer than the number of slots. -/
def Driver.fragments (s : Driver) (packet : Nat) : List Fragment :=
  (walk s.next rxSlotCount (some packet)).map s.fragment

def Driver.allocate (s : Driver) : Driver :=
  match rxAllocateCallback s.slots with
  | (slots, some i) =>
    { s with
      slots := slots
      lent := s.lent ++ [i]
      handedOut := Function.update s.handedOut i (s.handedOut i + 1) }
  | (slots, none) => { s with slots := slots }

/-- The DMA writes to a buffer that the HAL has. -/
def Driver.fill (s : Driver) (buffer : Nat) (bytes : List UInt8) : Driver :=
  let slot := s.slots buffer
  { s with
    slots := Function.update s.slots buffer
      { slot with data := bytes ++ slot.data.drop bytes.length } }

def Driver.link (s : Driver) (buffer length : Nat) : Driver :=
  let called := rxLinkCallback s.slots s.rxStart s.rxEnd (some buffer) length
  { s with
    slots := called.1
    rxStart := called.2.1
    rxEnd := called.2.2
    lent := s.lent.erase buffer
    linked := s.linked ++ [⟨(s.slots buffer).data, length⟩] }

/-- `receive` is called. -/
def Driver.call (s : Driver) (running : Bool) (frame : Frame) (timeout : Int) : Driver :=
  if frame = [] ∨ timeout < 0 then { s with returned := some (.error .invalidArgument, frame) }
  else if !running then { s with returned := some (.error .notConnected, frame) }
  else { s with phase := .reading frame, returned := none }

/-- `HAL_ETH_ReadData` returns: it hands over the chain, or has no complete packet. -/
def Driver.readData (s : Driver) (frame : Frame) (complete : Bool) : Driver :=
  match s.rxStart, complete with
  | some packet, true =>
    { s with
      rxStart := none
      phase := .holding frame packet
      linked := []
      packet := s.linked
      obtained := walk s.next rxSlotCount (some packet)
      released := [] }
  | _, _ => { s with phase := .checking frame }

def Driver.release (s : Driver) (frame : Frame) (first : Nat) (result : Option (Except Errc Nat)) :
    Driver :=
  let released := releaseFirst s.slots first
  { s with
    slots := released.1
    phase := .releasing frame released.2 result
    released := s.released ++ [first]
    takenBack := Function.update s.takenBack first (s.takenBack first + 1) }

inductive Action
  | allocate
  | fill (buffer : Nat) (bytes : List UInt8)
  | link (buffer length : Nat)
  | call (running : Bool) (frame : Frame) (timeout : Int)
  | readData (complete : Bool)
  | inspect
  | release
  | check (expired : Bool)

/-- The HAL passes back only buffers that it was given and has not passed back. -/
def step (receiveEtherType : Option EtherType) (s : Driver) : Action → Option Driver
  | .allocate => some s.allocate
  | .fill buffer bytes =>
    if buffer ∈ s.lent ∧ bytes.length ≤ ethDmaFrameBufferSize then some (s.fill buffer bytes)
    else none
  | .link buffer length => if buffer ∈ s.lent then some (s.link buffer length) else none
  | .call running frame timeout =>
    match s.phase with
    | .idle => some (s.call running frame timeout)
    | _ => none
  | .readData complete =>
    match s.phase with
    | .reading frame => some (s.readData frame complete)
    | _ => none
  | .inspect =>
    match s.phase with
    | .holding frame packet =>
      let (result, frame) := FrameReceive.inspect receiveEtherType frame (s.fragments packet)
      some { s with phase := .releasing frame (some packet) result }
    | _ => none
  | .release =>
    match s.phase with
    | .releasing frame (some first) result => some (s.release frame first result)
    | .releasing frame none (some result) =>
      some { s with phase := .idle, returned := some (result, frame) }
    | .releasing frame none none => some { s with phase := .checking frame }
    | _ => none
  | .check expired =>
    match s.phase with
    | .checking frame =>
      if expired then some { s with phase := .idle, returned := some (.error .timedOut, frame) }
      else some { s with phase := .reading frame }
    | _ => none

end SimPLCity.ReceiveSlots
