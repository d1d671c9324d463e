import SimPLCity.FrameReceive
import SimPLCity.OverflowWait

/-! The deadlines of `Ethernet::transmit` and `Ethernet::receive` on Linux. The kernel is any
function that answers the system calls and says when each returns; times are in nanoseconds. -/

namespace SimPLCity.SocketDeadlines
open EtherTypes FrameReceive WordArithmetic OverflowWait

abbrev nanosecondsPerMillisecond : UInt64 := 1000000

/-- The greatest `std::uint64_t`. -/
abbrev unsignedMaximum : UInt64 := 0xFFFFFFFFFFFFFFFF

/-- The greatest `int`. -/
abbrev intMax : UInt64 := 2147483647

def makeDeadline (now : UInt64) (timeout : Int64) : Accounted UInt64 :=
  if timeout ≤ 0 then pure now
  else do
    let milliseconds ← convert Int64.toUInt64 timeout
    let room ← sub unsignedMaximum now
    let limit ← div room nanosecondsPerMillisecond
    if milliseconds > limit then pure unsignedMaximum
    else do
      let product ← mul milliseconds nanosecondsPerMillisecond
      add now product

def pollTimeout (deadline now : UInt64) : Accounted Int32 :=
  if deadline ≤ now then pure 0
  else do
    let remaining ← sub deadline now
    let sum ← add remaining nanosecondsPerMillisecond
    let numerator ← sub sum 1
    let milliseconds ← div numerator nanosecondsPerMillisecond
    convert (fun x : UInt64 => x.toInt64.toInt32)
      (if intMax < milliseconds then intMax else milliseconds)

inductive Polled
  | failed (errno : Nat)
  | expired
  | ready
deriving DecidableEq, Repr

/-- The `sockaddr_ll` of a frame that is sent. -/
structure Destination where
  protocol : EtherType
  interfaceIndex : Nat
  address : List UInt8

/-- How the system calls are answered, each by its number and the time at which it is made, and when
they return. -/
structure Kernel where
  clockGettime : Nat → Nat → Option Timespec × Nat
  poll : Nat → Nat → Int32 → Polled × Nat
  recvfrom : Nat → Nat → Received × Nat
  sendto : Nat → Nat → Frame → Destination → Except Nat Nat × Nat

/-- The number of system calls so far, the time, and whether every computation was exact. -/
structure World where
  calls : Nat
  time : Nat
  exact : Bool := true
deriving DecidableEq, Repr

def World.called (w : World) (time : Nat) : World := { w with calls := w.calls + 1, time }

section
variable (k : Kernel)

def monotonicReading (w : World) : Accounted UInt64 :=
  match (k.clockGettime w.calls w.time).1 with
  | none => pure 0
  | some now => monotonicNanoseconds now

/-- Reads the clock and computes with the reading. -/
def compute {α : Type} (f : UInt64 → Accounted α) (w : World) : α × World :=
  let result := monotonicReading k w >>= f
  (result.value,
    { w.called (k.clockGettime w.calls w.time).2 with exact := w.exact && result.exact })

/-- Whatever comes after an interrupted call is left to `fuel`; without it there is no result yet. -/
def pollDescriptor (deadline : UInt64) : Nat → World → Option Polled × World
  | 0, w => (none, w)
  | fuel + 1, w =>
    let (timeout, w) := compute k (pollTimeout deadline) w
    let (polled, time) := k.poll w.calls w.time timeout
    if polled = .failed eintr then pollDescriptor deadline fuel (w.called time)
    else (some polled, w.called time)

/-- What the loop does with an answer of `recvfrom`; `none` goes on. -/
def inspectReceived (receiveEtherType : Option EtherType) (frame : Frame) (received : Received) :
    Option Outcome :=
  pollLoop receiveEtherType frame 0 [.ready received]

def receiveLoop (receiveEtherType : Option EtherType) (frame : Frame) (deadline : UInt64) :
    Nat → World → Option Outcome × World
  | 0, w => (none, w)
  | fuel + 1, w =>
    match pollDescriptor k deadline (fuel + 1) w with
    | (none, w) => (none, w)
    | (some (.failed errno), w) => (some ⟨.error (.system errno), frame, 0⟩, w)
    | (some .expired, w) => (some ⟨.error .timedOut, frame, 0⟩, w)
    | (some .ready, w) =>
      let (received, time) := k.recvfrom w.calls w.time
      match inspectReceived receiveEtherType frame received with
      | some outcome => (some outcome, w.called time)
      | none => receiveLoop receiveEtherType frame deadline fuel (w.called time)

def receive (receiveEtherType : Option EtherType) (running : Bool) (frame : Frame)
    (timeout : Int64) (fuel : Nat) (w : World) : Option Outcome × World :=
  if frame = [] ∨ timeout < 0 then (some ⟨.error .invalidArgument, frame, 0⟩, w)
  else if !running then (some ⟨.error .notConnected, frame, 0⟩, w)
  else
    let (deadline, w) := compute k (fun now => makeDeadline now timeout) w
    receiveLoop k receiveEtherType frame deadline fuel w

inductive TransmitError
  | errc (error : Errc)
  | ioError
deriving DecidableEq, Repr

/-- What `transmit` copies from the driver. -/
structure Interface where
  interfaceIndex : Nat
  macAddress : List UInt8

abbrev minFrameSize : Nat := 60

/-- Every protocol, for a frame without a type. -/
abbrev ethPAll : EtherType := 3

/-- The frame with the address of the interface as its source, padded. -/
def wirePacket (source : List UInt8) (frame : Frame) : Frame :=
  let packet := frame.take 6 ++ source ++ frame.drop (6 + source.length)
  packet ++ List.replicate (minFrameSize - frame.length) 0

def transmit (interface : Option Interface) (frame : Frame) (timeout : Int64) (fuel : Nat)
    (w : World) : Option (Except TransmitError Unit) × World :=
  if frame.length < ethernetHeaderSize ∨ frame.length > maxFrameSize ∨ timeout < 0 then
    (some (.error (.errc .invalidArgument)), w)
  else
    match interface with
    | none => (some (.error (.errc .notConnected)), w)
    | some interface =>
      let packet := wirePacket interface.macAddress frame
      let (deadline, w) := compute k (fun now => makeDeadline now timeout) w
      match pollDescriptor k deadline fuel w with
      | (none, w) => (none, w)
      | (some (.failed errno), w) => (some (.error (.errc (.system errno))), w)
      | (some .expired, w) => (some (.error (.errc .timedOut)), w)
      | (some .ready, w) =>
        let destination :=
          ⟨(frameOuterEtherType frame).getD ethPAll, interface.interfaceIndex, packet.take 6⟩
        let (sent, time) := k.sendto w.calls w.time packet destination
        match sent with
        | .error errno => (some (.error (.errc (.system errno))), w.called time)
        | .ok n =>
          if n ≠ max frame.length minFrameSize then (some (.error .ioError), w.called time)
          else (some (.ok ()), w.called time)

end

/-- The clock is monotonic and has 63 bits, and a call of `poll` that expires has waited. -/
structure Kernel.Sound (k : Kernel) : Prop where
  clockGettime : ∀ n t, t ≤ (k.clockGettime n t).2
  reading : ∀ n t now, (k.clockGettime n t).1 = some now →
    now.Reading ∧ now.nanoseconds < 2 ^ 63 ∧
      (t : Int) ≤ now.nanoseconds ∧ now.nanoseconds ≤ (k.clockGettime n t).2
  poll : ∀ n t timeout, t ≤ (k.poll n t timeout).2
  expired : ∀ n t timeout, 0 ≤ timeout.toInt → (k.poll n t timeout).1 = .expired →
    t + timeout.toInt.toNat * 1000000 ≤ (k.poll n t timeout).2
  recvfrom : ∀ n t, t ≤ (k.recvfrom n t).2
  sendto : ∀ n t packet destination, t ≤ (k.sendto n t packet destination).2

/-- The deadline for the reading at which the wait starts, saturated. -/
def deadlineOf (k : Kernel) (timeout : Int64) (w : World) : Nat :=
  min ((monotonicReading k w).value.toNat + timeout.toInt.toNat * 1000000) (2 ^ 64 - 1)

/-- The call times out only when the clock has reached the deadline, and no computation wraps. -/
def InTime {α : Type} (call : Kernel → Nat → World → Option α × World) (timeout : Int64)
    (TimedOut : α → Prop) : Prop :=
  ∀ k : Kernel, k.Sound → ∀ fuel w, w.exact = true →
    (call k fuel w).2.exact = true ∧ ∀ a, (call k fuel w).1 = some a → TimedOut a →
      deadlineOf k timeout w ≤ (call k fuel w).2.time

theorem toInt_toInt32 {x : UInt64} (h : x.toNat ≤ 2147483647) :
    x.toInt64.toInt32.toInt = x.toNat := by
  rw [Int64.toInt_toInt32, UnitScaling.toInt_toInt64 (by omega), Int.bmod_eq_of_le (by omega) (by omega)]

theorem cut_toNat (x : UInt64) :
    (if intMax < x then intMax else x : UInt64).toNat = min x.toNat 2147483647 := by
  have hlt : intMax < x ↔ 2147483647 < x.toNat := UInt64.lt_iff_toNat_lt
  split
  · rename_i h
    rw [hlt] at h
    rw [Nat.min_eq_right (by omega)]
    rfl
  · rename_i h
    rw [hlt] at h
    rw [Nat.min_eq_left (by omega)]

theorem makeDeadline_spec (now : UInt64) {timeout : Int64} (h : 0 ≤ timeout) :
    Yields (makeDeadline now timeout) fun deadline =>
      deadline.toNat = min (now.toNat + timeout.toInt.toNat * 1000000) (2 ^ 64 - 1) := by
  have hnow := now.toNat_lt
  have hpositive := Int64.le_iff_toInt_le.mp h
  have hmillisecond : nanosecondsPerMillisecond.toNat = 1000000 := rfl
  have hmaximum : unsignedMaximum.toNat = 2 ^ 64 - 1 := rfl
  rw [Int64.toInt_zero] at hpositive
  unfold makeDeadline
  split
  · rename_i hnone
    have hzero : timeout.toInt = 0 := by
      rw [Int64.le_iff_toInt_le, Int64.toInt_zero] at hnone
      omega
    exact .pure (by rw [hzero]; omega)
  · refine .bind (.unsigned h) fun milliseconds hmilliseconds => ?_
    rw [← hmilliseconds, Int.toNat_natCast]
    refine .bind (.sub (by omega)) fun room hroom => ?_
    refine .bind (.div (by decide)) fun limit hlimit => ?_
    rw [hroom, hmaximum, hmillisecond] at hlimit
    -- the product and the sum are too much
    have hmany : milliseconds > limit ↔
        2 ^ 64 - 1 < now.toNat + milliseconds.toNat * 1000000 := by
      rw [gt_iff_lt, UInt64.lt_iff_toNat_lt, hlimit, Nat.div_lt_iff_lt_mul (by decide)]
      omega
    split
    · rename_i hover
      rw [hmany] at hover
      exact .pure (by rw [Nat.min_eq_right (by omega)]; rfl)
    · rename_i hfits
      rw [hmany] at hfits
      refine .bind (.mul (by rw [hmillisecond]; omega)) fun product hproduct => ?_
      rw [hmillisecond] at hproduct
      refine (Yields.add (by omega)).mono fun deadline hdeadline => ?_
      rw [hdeadline, hproduct, Nat.min_eq_left (by omega)]

/-- A wait in whole milliseconds reaches the deadline, unless it is cut off. -/
theorem pollTimeout_spec {deadline now : UInt64} (h : deadline.toNat + 1000000 < 2 ^ 64) :
    Yields (pollTimeout deadline now) fun timeout => 0 ≤ timeout.toInt ∧
      (deadline.toNat ≤ now.toNat + timeout.toInt.toNat * 1000000 ∨
        timeout.toInt = 2147483647) := by
  have hmillisecond : nanosecondsPerMillisecond.toNat = 1000000 := rfl
  unfold pollTimeout
  split
  · rename_i hpast
    have hle := UInt64.le_iff_toNat_le.mp hpast
    exact .pure ⟨Int.le_refl _, .inl (Nat.le_add_right_of_le hle)⟩
  · rename_i hahead
    rw [UInt64.le_iff_toNat_le] at hahead
    refine .bind (.sub (by omega)) fun remaining hremaining => ?_
    refine .bind (.add (by rw [hmillisecond]; omega)) fun sum hsum => ?_
    rw [hmillisecond] at hsum
    refine .bind (.sub (by rw [UInt64.toNat_one]; omega)) fun numerator hnumerator => ?_
    rw [UInt64.toNat_one] at hnumerator
    refine .bind (.div (by decide)) fun milliseconds hmilliseconds => ?_
    rw [hmillisecond] at hmilliseconds
    have hcut := cut_toNat milliseconds
    have hsame := toInt_toInt32 (x := if intMax < milliseconds then intMax else milliseconds)
      (by omega)
    refine ⟨?_, convert_exact hsame⟩
    beta_reduce
    rw [convert_value, hsame, hcut]
    refine ⟨by omega, ?_⟩
    rw [Int.toNat_natCast]
    omega

theorem pollTimeout_le (deadline now : UInt64) :
    (pollTimeout deadline now).value.toInt.toNat ≤ 2147483647 := by
  unfold pollTimeout
  split
  · exact Nat.zero_le _
  · simp only [bind_value, convert_value]
    have hcut := cut_toNat (div (sub (add (sub deadline now).value nanosecondsPerMillisecond).value
      1).value nanosecondsPerMillisecond).value
    rw [toInt_toInt32 (by omega), hcut, Int.toNat_natCast]
    omega

section
variable {k : Kernel} {w : World}

theorem monotonicReading_spec (hk : k.Sound) (w : World) :
    Yields (monotonicReading k w) fun now =>
      now.toNat ≤ (k.clockGettime w.calls w.time).2 ∧ now.toNat < 2 ^ 63 := by
  unfold monotonicReading
  cases hreading : (k.clockGettime w.calls w.time).1 with
  | none => exact .pure ⟨Nat.zero_le _, by decide⟩
  | some now =>
    obtain ⟨hvalid, hbelow, -, hread⟩ := hk.reading _ _ _ hreading
    exact (monotonicNanoseconds_spec hvalid).mono fun n hn => by omega

theorem compute_spec {α : Type} {f : UInt64 → Accounted α} {P : α → Prop} (hk : k.Sound)
    (hexact : w.exact = true)
    (h : ∀ now : UInt64, now.toNat ≤ (compute k f w).2.time → now.toNat < 2 ^ 63 →
      Yields (f now) P) :
    P (compute k f w).1 ∧ (compute k f w).2.exact = true ∧ w.time ≤ (compute k f w).2.time := by
  obtain ⟨⟨hread, hbelow⟩, hreading⟩ := monotonicReading_spec hk w
  obtain ⟨hvalue, hyields⟩ := h _ hread hbelow
  refine ⟨hvalue, ?_, hk.clockGettime _ _⟩
  simp [compute, hexact, hreading, hyields]

/-- No more than the longest wait is left. -/
structure Waiting (deadline : UInt64) (w : World) : Prop where
  exact : w.exact = true
  left : deadline.toNat ≤ w.time + 2147483647 * 1000000

theorem Waiting.called {deadline : UInt64} {time : Nat} (h : Waiting deadline w)
    (htime : w.time ≤ time) : Waiting deadline (w.called time) :=
  ⟨h.exact, h.left.trans (Nat.add_le_add_right htime _)⟩

theorem pollDescriptor_spec {deadline : UInt64} (hk : k.Sound)
    (hdeadline : deadline.toNat + 1000000 < 2 ^ 64) (fuel : Nat) (h : Waiting deadline w) :
    Waiting deadline (pollDescriptor k deadline fuel w).2 ∧
      ((pollDescriptor k deadline fuel w).1 = some .expired →
        deadline.toNat ≤ (pollDescriptor k deadline fuel w).2.time) := by
  induction fuel generalizing w with
  | zero => exact ⟨h, nofun⟩
  | succ fuel ih =>
    obtain ⟨⟨hsign, hwait⟩, hexact, hlater⟩ := compute_spec hk h.exact
      (P := fun timeout : Int32 => 0 ≤ timeout.toInt ∧
        (deadline.toNat ≤ (compute k (pollTimeout deadline) w).2.time +
          timeout.toInt.toNat * 1000000 ∨ timeout.toInt = 2147483647))
      fun now hread _ => (pollTimeout_spec hdeadline).mono fun timeout ht =>
        ⟨ht.1, ht.2.imp_left fun hle => hle.trans (Nat.add_le_add_right hread _)⟩
    unfold pollDescriptor
    dsimp only
    generalize compute k (pollTimeout deadline) w = computed at hsign hwait hexact hlater ⊢
    obtain ⟨timeout, w'⟩ := computed
    have hw' : Waiting deadline w' := ⟨hexact, h.left.trans (Nat.add_le_add_right hlater _)⟩
    have hpoll := hk.poll w'.calls w'.time timeout
    split
    · exact ih (hw'.called hpoll)
    · refine ⟨hw'.called hpoll, fun hexpired => ?_⟩
      have hwaited := hk.expired w'.calls w'.time timeout hsign (Option.some.inj hexpired)
      have hleft := hw'.left
      change deadline.toNat ≤ (k.poll w'.calls w'.time timeout).2
      rcases hwait with hreached | hlongest
      · exact hreached.trans hwaited
      · rw [hlongest] at hwaited
        exact hleft.trans hwaited

theorem inspectReceived_not_timedOut {receiveEtherType : Option EtherType} {frame : Frame}
    {received : Received} {outcome : Outcome}
    (h : inspectReceived receiveEtherType frame received = some outcome) :
    outcome.result ≠ .error .timedOut := by
  unfold inspectReceived pollLoop at h
  cases received with
  | failed errno =>
    dsimp only at h
    split at h
    · cases h
    · cases h
      nofun
  | packet outgoing received =>
    cases outgoing with
    | true => cases h
    | false =>
      dsimp only at h
      split at h
      · cases h
        nofun
      · split at h
        · cases h
        · split at h
          · cases h
            nofun
          · cases h
            nofun

theorem receiveLoop_spec (receiveEtherType : Option EtherType) (frame : Frame)
    {deadline : UInt64} (hk : k.Sound) (hdeadline : deadline.toNat + 1000000 < 2 ^ 64)
    (fuel : Nat) (h : Waiting deadline w) :
    Waiting deadline (receiveLoop k receiveEtherType frame deadline fuel w).2 ∧
      ∀ outcome, (receiveLoop k receiveEtherType frame deadline fuel w).1 = some outcome →
        outcome.result = .error .timedOut →
          deadline.toNat ≤ (receiveLoop k receiveEtherType frame deadline fuel w).2.time := by
  induction fuel generalizing w with
  | zero => exact ⟨h, nofun⟩
  | succ fuel ih =>
    obtain ⟨hwaiting, hexpired⟩ := pollDescriptor_spec hk hdeadline (fuel + 1) h
    unfold receiveLoop
    generalize pollDescriptor k deadline (fuel + 1) w = polled at hwaiting hexpired ⊢
    obtain ⟨polled, w'⟩ := polled
    cases polled with
    | none => exact ⟨hwaiting, nofun⟩
    | some polled =>
      cases polled with
      | failed errno =>
        refine ⟨hwaiting, fun outcome houtcome htimedOut => ?_⟩
        cases houtcome
        cases htimedOut
      | expired => exact ⟨hwaiting, fun _ _ _ => hexpired rfl⟩
      | ready =>
        have hreceived := hwaiting.called (hk.recvfrom w'.calls w'.time)
        dsimp only
        split
        · rename_i outcome' hinspect
          refine ⟨hreceived, fun outcome houtcome htimedOut => ?_⟩
          cases houtcome
          exact absurd htimedOut (inspectReceived_not_timedOut hinspect)
        · exact ih hreceived

theorem deadline_spec {timeout : Int64} (hk : k.Sound) (hexact : w.exact = true)
    (h : 0 ≤ timeout) (htimeout : timeout.toInt ≤ 2147483647) :
    Waiting (compute k (fun now => makeDeadline now timeout) w).1
        (compute k (fun now => makeDeadline now timeout) w).2 ∧
      (compute k (fun now => makeDeadline now timeout) w).1.toNat + 1000000 < 2 ^ 64 ∧
      (compute k (fun now => makeDeadline now timeout) w).1.toNat = deadlineOf k timeout w := by
  obtain ⟨⟨hread, hbelow⟩, hreading⟩ := monotonicReading_spec hk w
  obtain ⟨hvalue, hyields⟩ := makeDeadline_spec (monotonicReading k w).value h
  obtain ⟨-, hexact', -⟩ := compute_spec (P := fun _ => True) hk hexact fun now _ _ =>
    (makeDeadline_spec now h).mono fun _ _ => trivial
  have hsame : (compute k (fun now => makeDeadline now timeout) w).1.toNat =
      min ((monotonicReading k w).value.toNat + timeout.toInt.toNat * 1000000) (2 ^ 64 - 1) :=
    hvalue
  refine ⟨⟨hexact', ?_⟩, by omega, hsame⟩
  change _ ≤ (k.clockGettime w.calls w.time).2 + 2147483647 * 1000000
  omega

end

/-- The time as the clock gives it, which ends with its 63 bits. -/
def timespecOf (time : Nat) : Option Timespec :=
  if time < 2 ^ 63 then some ⟨Int64.ofNat (time / 1000000000), Int64.ofNat (time % 1000000000)⟩
  else none

/-- Every wait expires as soon as it may. -/
def idleKernel : Kernel where
  clockGettime _ time := (timespecOf time, time)
  poll _ time timeout := (.expired, time + timeout.toInt.toNat * 1000000)
  recvfrom _ time := (.failed eintr, time)
  sendto _ time _ _ := (.error eintr, time)

theorem timespecOf_eq {time : Nat} {now : Timespec} (h : timespecOf time = some now) :
    now.Reading ∧ now.nanoseconds = time ∧ time < 2 ^ 63 := by
  unfold timespecOf at h
  split at h
  · rename_i hlt
    cases h
    have hseconds : (Int64.ofNat (time / 1000000000)).toInt = (time / 1000000000 : Nat) :=
      Int64.toInt_ofNat_of_lt (by omega)
    have hfraction : (Int64.ofNat (time % 1000000000)).toInt = (time % 1000000000 : Nat) :=
      Int64.toInt_ofNat_of_lt (by omega)
    have hsum : Timespec.nanoseconds
        ⟨Int64.ofNat (time / 1000000000), Int64.ofNat (time % 1000000000)⟩ = time := by
      unfold Timespec.nanoseconds
      rw [hseconds, hfraction]
      omega
    refine ⟨⟨?_, ?_, ?_, ?_⟩, hsum, hlt⟩
    · rw [Int64.le_iff_toInt_le, Int64.toInt_zero, hseconds]
      omega
    · rw [Int64.le_iff_toInt_le, Int64.toInt_zero, hfraction]
      omega
    · rw [hfraction]
      omega
    · rw [hsum]
      omega
  · cases h

theorem idleKernel_sound : idleKernel.Sound where
  clockGettime _ _ := Nat.le_refl _
  reading _ t now h := by
    obtain ⟨hvalid, hsum, hlt⟩ := timespecOf_eq h
    refine ⟨hvalid, by omega, by omega, ?_⟩
    change now.nanoseconds ≤ (t : Int)
    omega
  poll _ _ _ := Nat.le_add_right ..
  expired _ _ _ _ _ := Nat.le_refl _
  recvfrom _ _ := Nat.le_refl _
  sendto _ _ _ _ := Nat.le_refl _

def start : World := ⟨0, 0, true⟩

theorem pollDescriptor_idle (deadline : UInt64) (fuel : Nat) (w : World) :
    ∃ w', pollDescriptor idleKernel deadline (fuel + 1) w = (some .expired, w') ∧
      w'.time ≤ w.time + 2147483647 * 1000000 := by
  refine ⟨_, rfl, ?_⟩
  refine Nat.add_le_add_left (Nat.mul_le_mul_right _ ?_) _
  exact pollTimeout_le deadline (monotonicReading idleKernel w).value

theorem deadlineOf_idle {timeout : Int64} (h : 2147483647 < timeout.toInt) :
    2147483647 * 1000000 < deadlineOf idleKernel timeout start := by
  unfold deadlineOf
  omega

theorem idle_late {timeout : Int64} (h : 2147483647 < timeout.toInt) (deadline : UInt64)
    (fuel : Nat) :
    ∃ w, pollDescriptor idleKernel deadline (fuel + 1)
        (compute idleKernel (fun now => makeDeadline now timeout) start).2 = (some .expired, w) ∧
      w.time < deadlineOf idleKernel timeout start := by
  obtain ⟨w, hpoll, htime⟩ := pollDescriptor_idle deadline fuel
    (compute idleKernel (fun now => makeDeadline now timeout) start).2
  have hzero : (compute idleKernel (fun now => makeDeadline now timeout) start).2.time = 0 := rfl
  rw [hzero, Nat.zero_add] at htime
  exact ⟨w, hpoll, htime.trans_lt (deadlineOf_idle h)⟩

theorem other_result {α : Type} {TimedOut : α → Prop} {a : α} {w : World} {deadline : Nat}
    (hexact : w.exact = true) (ha : ¬ TimedOut a) :
    w.exact = true ∧ ∀ b, some a = some b → TimedOut b → deadline ≤ w.time :=
  ⟨hexact, fun _ hb htimedOut => absurd (Option.some.inj hb ▸ htimedOut) ha⟩

section
variable {frame : Frame} {timeout : Int64}

theorem receive_inTime_iff {receiveEtherType : Option EtherType} {running : Bool} :
    InTime (fun k => receive k receiveEtherType running frame timeout) timeout
        (fun outcome => outcome.result = .error .timedOut) ↔
      frame = [] ∨ running = false ∨ timeout.toInt ≤ 2147483647 := by
  constructor
  · intro h
    by_contra hnot
    obtain ⟨hframe, hrunning, hlong⟩ : frame ≠ [] ∧ running = true ∧ 2147483647 < timeout.toInt := by
      simpa using hnot
    have hpositive : ¬ timeout < 0 := by
      rw [Int64.lt_iff_toInt_lt, Int64.toInt_zero]
      omega
    have hin := (h idleKernel idleKernel_sound 1 start rfl).2
    obtain ⟨w, hpoll, hearly⟩ := idle_late hlong
      (compute idleKernel (fun now => makeDeadline now timeout) start).1 0
    unfold receive at hin
    beta_reduce at hin
    rw [if_neg (by simp [hframe, hpositive]), if_neg (by simp [hrunning])] at hin
    unfold receiveLoop at hin
    dsimp only at hin
    rw [hpoll] at hin
    exact absurd (hin _ rfl rfl) (Nat.not_le.mpr hearly)
  · intro h k hk fuel w hexact
    unfold receive
    beta_reduce
    by_cases hrefused : frame = [] ∨ timeout < 0
    · rw [if_pos hrefused]
      exact other_result hexact nofun
    · rw [if_neg hrefused]
      rw [not_or, Int64.not_lt] at hrefused
      cases running with
      | false => exact other_result hexact nofun
      | true =>
        have htimeout : timeout.toInt ≤ 2147483647 := by simpa [hrefused.1] using h
        obtain ⟨hwaiting, hdeadline, hsame⟩ := deadline_spec hk hexact hrefused.2 htimeout
        obtain ⟨hend, hin⟩ := receiveLoop_spec receiveEtherType frame hk hdeadline fuel
          hwaiting
        rw [← hsame]
        exact ⟨hend.exact, hin⟩

theorem transmit_inTime_iff {interface : Option Interface} :
    InTime (fun k => transmit k interface frame timeout) timeout
        (fun result => result = .error (.errc .timedOut)) ↔
      frame.length < ethernetHeaderSize ∨ frame.length > maxFrameSize ∨ interface = none ∨
        timeout.toInt ≤ 2147483647 := by
  constructor
  · intro h
    by_contra hnot
    rw [not_or, not_or, not_or, Int.not_le] at hnot
    obtain ⟨hshort, hlarge, hsome, hlong⟩ := hnot
    obtain ⟨socket, rfl⟩ := Option.ne_none_iff_exists'.mp hsome
    have hpositive : ¬ timeout < 0 := by
      rw [Int64.lt_iff_toInt_lt, Int64.toInt_zero]
      omega
    have hin := (h idleKernel idleKernel_sound 1 start rfl).2
    obtain ⟨w, hpoll, hearly⟩ := idle_late hlong
      (compute idleKernel (fun now => makeDeadline now timeout) start).1 0
    unfold transmit at hin
    beta_reduce at hin
    rw [if_neg (by rw [not_or, not_or]; exact ⟨hshort, hlarge, hpositive⟩)] at hin
    dsimp only at hin
    rw [hpoll] at hin
    exact absurd (hin _ rfl rfl) (Nat.not_le.mpr hearly)
  · intro h k hk fuel w hexact
    unfold transmit
    beta_reduce
    by_cases hrefused :
      frame.length < ethernetHeaderSize ∨ frame.length > maxFrameSize ∨ timeout < 0
    · rw [if_pos hrefused]
      exact other_result hexact nofun
    · rw [if_neg hrefused]
      rw [not_or, not_or, Int64.not_lt] at hrefused
      obtain ⟨hshort, hlarge, hpositive⟩ := hrefused
      cases interface with
      | none => exact other_result hexact nofun
      | some socket =>
        have htimeout : timeout.toInt ≤ 2147483647 := by simpa [hshort, hlarge] using h
        obtain ⟨hwaiting, hdeadline, hsame⟩ := deadline_spec hk hexact hpositive htimeout
        obtain ⟨hend, hexpired⟩ := pollDescriptor_spec hk hdeadline fuel hwaiting
        rw [← hsame]
        dsimp only
        generalize compute k (fun now => makeDeadline now timeout) w = computed
          at hend hexpired ⊢
        generalize pollDescriptor k computed.1 fuel computed.2 = polled at hend hexpired ⊢
        obtain ⟨polled, w'⟩ := polled
        cases polled with
        | none => exact ⟨hend.exact, nofun⟩
        | some polled =>
          cases polled with
          | failed errno =>
            exact other_result hend.exact nofun
          | expired => exact ⟨hend.exact, fun _ _ _ => hexpired rfl⟩
          | ready =>
            dsimp only
            split
            · exact other_result hend.exact nofun
            · split
              · exact other_result hend.exact nofun
              · exact other_result hend.exact nofun

end

theorem calls_inTime_iff (receiveEtherType : Option EtherType) (running : Bool)
    (interface : Option Interface) (frame : Frame) (timeout : Int64) :
    (InTime (fun k => receive k receiveEtherType running frame timeout) timeout
        (fun outcome => outcome.result = .error .timedOut) ↔
      frame = [] ∨ running = false ∨ timeout.toInt ≤ 2147483647) ∧
    (InTime (fun k => transmit k interface frame timeout) timeout
        (fun result => result = .error (.errc .timedOut)) ↔
      frame.length < ethernetHeaderSize ∨ frame.length > maxFrameSize ∨ interface = none ∨
        timeout.toInt ≤ 2147483647) :=
  ⟨receive_inTime_iff, transmit_inTime_iff⟩

/-- A wait of a millisecond more than `poll` can wait is cut off. -/
theorem receive_early :
    ¬ InTime (fun k => receive k none true [0] 2147483648) 2147483648
      (fun outcome => outcome.result = .error .timedOut) :=
  fun h => absurd (receive_inTime_iff.mp h) (by decide)

end SimPLCity.SocketDeadlines
