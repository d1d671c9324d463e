import SimPLCity.LockOrder
import SimPLCity.EtherTypes
import SimPLCity.Runs
import Mathlib.Data.List.Nodup
import Mathlib.Data.List.GetD
import Mathlib.Order.Fin.Basic
import Mathlib.Data.Fintype.EquivFin

/-! The Ethernet controller of the STM32, and the threads that start it, stop it, ask whether it
runs, transmit and receive. A step takes or releases one mutex, calls the HAL once, stores one byte,
or looks at the driver's fields under the state mutex. -/

namespace SimPLCity.EthernetController
open LockOrder EtherTypes

abbrev ThreadId := Nat

abbrev macAddressSize : Nat := 6

def ethDmaFrameBufferSize : Nat := 1536

inductive Mutex
  | transmit
  | receive
  | state
deriving DecidableEq, Repr

inductive Exchange
  | transmit (frame : List UInt8)
  | receive
deriving DecidableEq, Repr

def Exchange.mutex : Exchange → Mutex
  | .transmit _ => .transmit
  | .receive => .receive

inductive Operation
  | start
  | stop
  | isRunning
  | exchange (exchange : Exchange)
deriving DecidableEq, Repr

/-- The mutexes that the operation takes before it looks whether the controller runs. -/
def Operation.mutexes : Operation → List Mutex
  | .start | .stop => [.transmit, .receive, .state]
  | .isRunning => [.state]
  | .exchange e => [e.mutex, .state]

inductive Outcome
  | success
  | isRunning (running : Bool)
  | invalidArgument
  | notConnected
  | ioError
  | timedOut
  | noBufferSpace
deriving DecidableEq, Repr

/-- Where a thread is in a call. `locking` waits for the `n`th mutex, `checked` has read `m_running`
for `transmit` or `receive`, `configuring` has made `n` of the four HAL calls before
`HAL_ETH_Start`, and `setting` is about to store `m_running`. `leaving` releases what is held, in this
order. -/
inductive Call
  | idle
  | locking (operation : Operation) (n : Nat)
  | checking (operation : Operation)
  | configuring (n : Nat)
  | stopping
  | setting (running : Bool)
  | checked (exchange : Exchange) (running : Bool)
  | copying (frame : List UInt8) (index : Nat)
  | addressing (frame : List UInt8) (index : Nat)
  | transmitting (frame : List UInt8)
  | receiving
  | leaving (held : List Mutex) (outcome : Outcome)
deriving DecidableEq, Repr

/-- `started` is the state of the controller itself and `sent` the frames that were handed to it. -/
structure Controller where
  owner : Mutex → Option ThreadId := fun _ => none
  running : Bool := false
  started : Bool := false
  txFrame : Nat → UInt8 := fun _ => 0
  call : ThreadId → Call := fun _ => .idle
  sent : List (List UInt8) := []

/-- `again` is for the loop of `receive`. -/
inductive Answer
  | ok
  | timeout
  | error
  | again
deriving DecidableEq, Repr

inductive Action
  | call (t : ThreadId) (operation : Operation)
  | advance (t : ThreadId) (answer : Answer)
deriving DecidableEq, Repr

/-- The sizes that `transmit` accepts. -/
def Accepted (frame : List UInt8) : Prop :=
  ethernetHeaderSize ≤ frame.length ∧ frame.length ≤ maxFrameSize

instance (frame : List UInt8) : Decidable (Accepted frame) := inferInstanceAs (Decidable (_ ∧ _))

def Operation.Accepted : Operation → Prop
  | .exchange (.transmit frame) => EthernetController.Accepted frame
  | _ => True

instance : DecidablePred Operation.Accepted
  | .exchange (.transmit _) => inferInstanceAs (Decidable (EthernetController.Accepted _))
  | .exchange .receive | .start | .stop | .isRunning => inferInstanceAs (Decidable True)

/-- A rejected frame ends the call at once. -/
def Operation.first (operation : Operation) : Call :=
  if operation.Accepted then .locking operation 0 else .leaving [] .invalidArgument

/-- What follows when the controller runs. -/
def Exchange.first : Exchange → Call
  | .transmit frame => .copying frame 0
  | .receive => .receiving

def Controller.goto (s : Controller) (t : ThreadId) (call : Call) : Controller :=
  { s with call := Function.update s.call t call }

/-- The call goes on with the next mutex, or with the check. -/
def Operation.after (operation : Operation) (n : Nat) : Call :=
  if n + 1 < operation.mutexes.length then .locking operation (n + 1) else .checking operation

def Controller.acquire (s : Controller) (t : ThreadId) (operation : Operation) (n : Nat) :
    Option Controller :=
  match operation.mutexes[n]? with
  | none => none
  | some mutex =>
    if s.owner mutex = none then
      some { s.goto t (operation.after n) with owner := Function.update s.owner mutex (some t) }
    else none

def Controller.release (s : Controller) (t : ThreadId) (mutex : Mutex) (call : Call) : Controller :=
  { s.goto t call with owner := Function.update s.owner mutex none }

/-- Every mutex, the last one taken first. -/
def allMutexes : List Mutex := [.state, .receive, .transmit]

theorem mem_allMutexes (mutex : Mutex) : mutex ∈ allMutexes := by
  cases mutex <;> decide

/-- `transmit` and `receive` have called `isRunning`. -/
def Controller.check (s : Controller) (t : ThreadId) : Operation → Controller
  | .start => s.goto t (if s.running then .leaving allMutexes .success else .configuring 0)
  | .stop => s.goto t (if s.running then .stopping else .leaving allMutexes .success)
  | .isRunning => s.goto t (.leaving [.state] (.isRunning s.running))
  | .exchange e => s.goto t (.checked e s.running)

/-- The bytes that the controller reads from `tx_frame`. -/
def Controller.outgoing (s : Controller) (size : Nat) : List UInt8 := (List.range size).map s.txFrame

def Answer.transmitted : Answer → Outcome
  | .ok => .success
  | .timeout => .timedOut
  | .error | .again => .ioError

/-- `mac` is the address in the HAL's handle, `answer` that of the HAL call; for `receive`, how the
loop ends. -/
def Controller.advance (mac : List UInt8) (s : Controller) (t : ThreadId) (answer : Answer) :
    Call → Option Controller
  | .idle => none
  | .locking operation n => s.acquire t operation n
  | .checking operation => some (s.check t operation)
  | .configuring n =>
    if answer ≠ .ok then some (s.goto t (.leaving allMutexes .ioError))
    else if n < 4 then some (s.goto t (.configuring (n + 1)))
    else some ({ s with started := true }.goto t (.setting true))
  | .stopping =>
    if answer = .ok then some ({ s with started := false }.goto t (.setting false))
    else some (s.goto t (.leaving allMutexes .ioError))
  | .setting running => some ({ s with running }.goto t (.leaving allMutexes .success))
  | .checked exchange running =>
    some (s.release t .state (if running then exchange.first else .leaving [exchange.mutex] .notConnected))
  | .copying frame index =>
    if index < frame.length then
      some ({ s with txFrame := Function.update s.txFrame index (frame.getD index 0) }.goto t
        (.copying frame (index + 1)))
    else some (s.goto t (.addressing frame 0))
  | .addressing frame index =>
    if index < macAddressSize then
      some ({ s with
        txFrame := Function.update s.txFrame (macAddressSize + index) (mac.getD index 0) }.goto t
          (.addressing frame (index + 1)))
    else some (s.goto t (.transmitting frame))
  | .transmitting frame =>
    some ({ s with sent := if answer = Answer.ok then s.sent ++ [s.outgoing frame.length] else s.sent }.goto t
      (.leaving [.transmit] answer.transmitted))
  | .receiving =>
    some (s.goto t (match answer with
      | .ok => .leaving [.receive] .success
      | .timeout => .leaving [.receive] .timedOut
      | .error => .leaving [.receive] .noBufferSpace
      | .again => .receiving))
  | .leaving [] _ => some (s.goto t .idle)
  | .leaving (mutex :: held) outcome => some (s.release t mutex (.leaving held outcome))

def step (mac : List UInt8) (s : Controller) : Action → Option Controller
  | .call t operation => if s.call t = .idle then some (s.goto t operation.first) else none
  | .advance t answer => s.advance mac t answer (s.call t)

/-- What the thread holds, the last one taken first. -/
def held : Call → List Mutex
  | .idle => []
  | .locking operation n => (operation.mutexes.take n).reverse
  | .checking operation => operation.mutexes.reverse
  | .checked exchange _ => [.state, exchange.mutex]
  | .configuring _ | .stopping | .setting _ => allMutexes
  | .copying _ _ | .addressing _ _ | .transmitting _ => [.transmit]
  | .receiving => [.receive]
  | .leaving held _ => held

/-- The mutex that the thread waits for. -/
def awaited : Call → Option Mutex
  | .locking operation n => operation.mutexes[n]?
  | _ => none

def rank : Mutex → Fin 3
  | .transmit => ⟨0, by decide⟩
  | .receive => ⟨1, by decide⟩
  | .state => ⟨2, by decide⟩

theorem rank_lt {call : Call} {mutex mutex' : Mutex} (hheld : mutex ∈ held call)
    (hawaited : awaited call = some mutex') : rank mutex < rank mutex' := by
  cases call with
  | locking operation n =>
    have hsorted : operation.mutexes.Pairwise fun m m' => rank m < rank m' := by
      rcases operation with _ | _ | _ | (_ | _) <;> simp only [Operation.mutexes, Exchange.mutex] <;> decide
    obtain ⟨hn, rfl⟩ := List.getElem?_eq_some_iff.mp hawaited
    obtain ⟨i, hi, rfl⟩ := List.mem_iff_getElem.mp (List.mem_reverse.mp hheld)
    rw [List.length_take] at hi
    rw [List.getElem_take]
    exact List.pairwise_iff_getElem.mp hsorted i n _ hn (by omega)
  | _ => cases hawaited

theorem held_after {operation : Operation} {n : Nat} {mutex : Mutex}
    (h : operation.mutexes[n]? = some mutex) :
    held (operation.after n) = mutex :: held (.locking operation n) := by
  obtain ⟨hn, rfl⟩ := List.getElem?_eq_some_iff.mp h
  have htake : (operation.mutexes.take (n + 1)).reverse =
      operation.mutexes[n] :: (operation.mutexes.take n).reverse := by
    rw [List.take_succ_eq_append_getElem hn, List.reverse_append]
    rfl
  unfold Operation.after
  split
  · exact htake
  · rw [List.take_of_length_le (by omega)] at htake
    exact htake

/-- The frame with the controller's own source address. -/
def withSource (mac frame : List UInt8) (i : Nat) : UInt8 :=
  if macAddressSize ≤ i ∧ i < macAddressSize + macAddressSize then mac.getD (i - macAddressSize) 0
  else frame.getD i 0

/-- What a thread relies on in a call. -/
def CallOk (mac : List UInt8) (s : Controller) : Call → Prop
  | .idle => True
  | .locking operation _ | .checking operation => operation.Accepted
  | .configuring _ => s.running = false ∧ s.started = false
  | .stopping => s.running = true ∧ s.started = true
  | .setting running => s.started = running
  | .checked exchange running =>
    (running = true → s.running = true ∧ s.started = true) ∧ (Operation.exchange exchange).Accepted
  | .copying frame index => (s.running = true ∧ s.started = true) ∧ Accepted frame ∧
    ∀ i < index, s.txFrame i = frame.getD i 0
  | .addressing frame index => (s.running = true ∧ s.started = true) ∧ Accepted frame ∧
    index ≤ macAddressSize ∧ ∀ i < frame.length, s.txFrame i =
      if i < macAddressSize + index then withSource mac frame i else frame.getD i 0
  | .transmitting frame => (s.running = true ∧ s.started = true) ∧ Accepted frame ∧
    ∀ i < frame.length, s.txFrame i = withSource mac frame i
  | .receiving => s.running = true ∧ s.started = true
  | .leaving held _ => held.Nodup

/-- The bytes of the frame as the controller is to send it. -/
def addressed (mac frame : List UInt8) : List UInt8 := (List.range frame.length).map (withSource mac frame)

/-- `m_running` says whether the controller is started, except while it is being stored. -/
structure Inv (mac : List UInt8) (s : Controller) : Prop where
  owned : Owned s.owner fun t => held (s.call t)
  calls : ∀ t, CallOk mac s (s.call t)
  agree : s.running = s.started ∨ ∃ t running, s.call t = .setting running
  sent : ∀ bytes ∈ s.sent, ∃ frame, Accepted frame ∧ bytes = addressed mac frame

section
variable {mac : List UInt8} {s s' : Controller} {t : ThreadId} {call : Call}

theorem inv_initial (mac : List UInt8) : Inv mac {} where
  owned := fun _ _ => ⟨nofun, fun h => by cases h⟩
  calls := fun _ => trivial
  agree := Or.inl rfl
  sent := nofun

theorem held_update (calls : ThreadId → Call) (t : ThreadId) (call : Call) :
    (fun u => held (Function.update calls t call u)) =
      Function.update (fun u => held (calls u)) t (held call) := by
  funext u
  by_cases hu : u = t <;> simp [hu]

theorem callOk_congr (hrunning : s'.running = s.running) (hstarted : s'.started = s.started)
    (htx : s'.txFrame = s.txFrame) (h : CallOk mac s call) : CallOk mac s' call := by
  unfold CallOk at *
  rw [hrunning, hstarted, htx]
  exact h

theorem callOk_bytes (hrunning : s'.running = s.running) (hstarted : s'.started = s.started)
    (htransmit : Mutex.transmit ∉ held call) (h : CallOk mac s call) : CallOk mac s' call := by
  cases call with
  | copying frame index | addressing frame index | transmitting frame =>
    exact absurd (List.mem_singleton_self _) htransmit
  | idle | locking _ _ | checking _ | leaving _ _ => exact h
  | _ =>
    unfold CallOk at *
    simp only [hrunning, hstarted]
    exact h

theorem callOk_free (hfree : ∀ mutex, mutex ∉ held call) (h : CallOk mac s call) : CallOk mac s' call := by
  cases call with
  | configuring n | stopping | setting running => exact absurd (List.mem_cons_self ..) (hfree .state)
  | checked exchange running => exact absurd (List.mem_cons_self ..) (hfree .state)
  | copying frame index | addressing frame index | transmitting frame =>
    exact absurd (List.mem_singleton_self _) (hfree .transmit)
  | receiving => exact absurd (List.mem_singleton_self _) (hfree .receive)
  | _ => exact h

theorem inv_next (h : Inv mac s) (hcall : s'.call = Function.update s.call t call)
    (howner : s'.owner = s.owner) (hheld : held call = held (s.call t)) (hok : CallOk mac s' call)
    (hothers : ∀ u, u ≠ t → CallOk mac s' (s.call u))
    (hagree : s'.running = s'.started ∨ ∃ u running, s'.call u = .setting running)
    (hsent : ∀ bytes ∈ s'.sent, ∃ frame, Accepted frame ∧ bytes = addressed mac frame) : Inv mac s' := by
  refine ⟨?_, fun u => ?_, hagree, hsent⟩
  · rw [hcall, howner, held_update, hheld, Function.update_eq_self]
    exact h.owned
  · rw [hcall]
    by_cases hu : u = t
    · rw [hu, Function.update_self]
      exact hok
    · rw [Function.update_of_ne hu]
      exact hothers u hu

theorem agree_goto (h : Inv mac s) (ht : ∀ running, s.call t ≠ .setting running) (call : Call) :
    s.running = s.started ∨ ∃ u running, Function.update s.call t call u = .setting running := by
  refine h.agree.imp_right fun ⟨u, running, hu⟩ => ⟨u, running, ?_⟩
  have hne : u ≠ t := by
    rintro rfl
    exact ht running hu
  rwa [Function.update_of_ne hne]

theorem inv_goto (h : Inv mac s) (ht : ∀ running, s.call t ≠ .setting running)
    (hheld : held call = held (s.call t)) (hok : CallOk mac s call) : Inv mac (s.goto t call) :=
  inv_next h rfl rfl hheld (callOk_congr rfl rfl rfl hok)
    (fun u _ => callOk_congr rfl rfl rfl (h.calls u)) (agree_goto h ht call) h.sent

theorem inv_acquire (h : Inv mac s) {operation : Operation} {n : Nat}
    (hcall : s.call t = .locking operation n) (hs : s.acquire t operation n = some s') : Inv mac s' := by
  have hok := h.calls t
  rw [hcall] at hok
  unfold Controller.acquire at hs
  split at hs
  · cases hs
  · rename_i mutex hmutex
    simp only [Option.ite_none_right_eq_some, Option.some.injEq] at hs
    obtain ⟨hfree, rfl⟩ := hs
    refine ⟨?_, fun u => callOk_congr (s := s.goto t (operation.after n)) rfl rfl rfl ?_,
      agree_goto h (by simp [hcall]) _, h.sent⟩
    · dsimp only [Controller.goto]
      rw [held_update, held_after hmutex, ← hcall]
      exact h.owned.acquire hfree
    · by_cases hu : u = t
      · subst hu
        simp only [Controller.goto, Function.update_self]
        unfold Operation.after
        split <;> exact hok
      · simp only [Controller.goto, Function.update_of_ne hu]
        exact callOk_congr rfl rfl rfl (h.calls u)

theorem inv_release (h : Inv mac s) (ht : ∀ running, s.call t ≠ .setting running) {mutex : Mutex}
    (hheld : held (s.call t) = mutex :: held call) (hmutex : mutex ∉ held call)
    (hok : CallOk mac s call) : Inv mac (s.release t mutex call) := by
  refine ⟨?_, fun u => ?_, agree_goto h ht call, h.sent⟩
  · dsimp only [Controller.release, Controller.goto]
    rw [held_update]
    exact h.owned.release hheld hmutex
  · by_cases hu : u = t
    · subst hu
      simp only [Controller.release, Controller.goto, Function.update_self]
      exact callOk_congr rfl rfl rfl hok
    · simp only [Controller.release, Controller.goto, Function.update_of_ne hu]
      exact callOk_congr rfl rfl rfl (h.calls u)

theorem inv_store (h : Inv mac s) (ht : held (s.call t) = [.transmit]) {i : Nat} {b : UInt8}
    (hheld : held call = [.transmit])
    (hok : CallOk mac { s with txFrame := Function.update s.txFrame i b } call) :
    Inv mac ({ s with txFrame := Function.update s.txFrame i b }.goto t call) := by
  have hsetting : ∀ running, s.call t ≠ .setting running := by
    intro running hcall
    rw [hcall] at ht
    cases ht
  refine inv_next h rfl rfl (hheld.trans ht.symm) (callOk_congr rfl rfl rfl hok) (fun u hu => ?_)
    (agree_goto h hsetting call) h.sent
  refine callOk_bytes (s := s) rfl rfl (fun hmem => hu ?_) (h.calls u)
  exact h.owned.exclusive hmem (by rw [ht]; exact List.mem_singleton_self _)

theorem inv_switch (h : Inv mac s) (ht : held (s.call t) = allMutexes) {running started : Bool}
    (hheld : held call = allMutexes) (hok : CallOk mac { s with running, started } call)
    (hagree : running = started ∨ ∃ running, call = .setting running) :
    Inv mac ({ s with running, started }.goto t call) := by
  refine inv_next h rfl rfl (hheld.trans ht.symm) (callOk_congr rfl rfl rfl hok) (fun u hu => ?_) ?_ h.sent
  · refine callOk_free (fun mutex hmem => hu ?_) (h.calls u)
    exact h.owned.exclusive hmem (by rw [ht]; exact mem_allMutexes mutex)
  · refine hagree.imp_right fun ⟨running, hcall⟩ => ⟨t, running, ?_⟩
    exact (Function.update_self ..).trans hcall

/-- Under the state mutex, `m_running` says whether the controller is started. -/
theorem running_eq (h : Inv mac s) (ht : Mutex.state ∈ held (s.call t))
    (hnot : ∀ running, s.call t ≠ .setting running) : s.running = s.started := by
  refine h.agree.resolve_right fun ⟨u, running, hu⟩ => ?_
  have hmem : Mutex.state ∈ held (s.call u) := by
    rw [hu]
    exact List.mem_cons_self
  have heq : u = t := h.owned.exclusive hmem ht
  exact hnot running (heq ▸ hu)

theorem inv_check (h : Inv mac s) {operation : Operation} (hcall : s.call t = .checking operation) :
    Inv mac (s.check t operation) := by
  have hok := h.calls t
  rw [hcall] at hok
  have hset : ∀ running, s.call t ≠ .setting running := by simp [hcall]
  have hagree : s.running = s.started := by
    refine running_eq h ?_ hset
    rw [hcall]
    cases operation <;> simp [held, Operation.mutexes]
  have hall : ∀ call : Call, CallOk mac s call → held call = operation.mutexes.reverse →
      Inv mac (s.goto t call) := by
    intro call hok hheld
    refine inv_goto h hset ?_ hok
    rw [hheld, hcall]
    rfl
  cases operation with
  | start =>
    simp only [Controller.check]
    split
    · exact hall _ (by decide : allMutexes.Nodup) rfl
    · rename_i hstopped
      have hfalse : s.running = false := Bool.eq_false_iff.mpr hstopped
      exact hall (.configuring 0) ⟨hfalse, hagree ▸ hfalse⟩ rfl
  | stop =>
    simp only [Controller.check]
    split
    · rename_i hrunning
      exact hall .stopping ⟨hrunning, hagree ▸ hrunning⟩ rfl
    · exact hall _ (by decide : allMutexes.Nodup) rfl
  | isRunning => exact hall _ (List.nodup_singleton _) rfl
  | exchange e => exact hall (.checked e s.running) ⟨fun hrunning => ⟨hrunning, hagree ▸ hrunning⟩, hok⟩ rfl

theorem inv_checked (h : Inv mac s) {e : Exchange} {running : Bool} (hcall : s.call t = .checked e running) :
    Inv mac (s.release t .state (if running then e.first else .leaving [e.mutex] .notConnected)) := by
  obtain ⟨hrunning, haccepted⟩ : CallOk mac s (.checked e running) := hcall ▸ h.calls t
  have hset : ∀ running, s.call t ≠ .setting running := by simp [hcall]
  have hmutex : Mutex.state ∉ [e.mutex] := by cases e <;> simp [Exchange.mutex]
  split
  · rename_i hrun
    have hheld : held e.first = [e.mutex] := by cases e <;> rfl
    refine inv_release h hset (by rw [hcall, hheld]; rfl) (hheld ▸ hmutex) ?_
    cases e with
    | transmit frame => exact ⟨hrunning hrun, haccepted, fun i hi => absurd hi (Nat.not_lt_zero i)⟩
    | receive => exact hrunning hrun
  · exact inv_release h hset (by rw [hcall]; rfl) hmutex (List.nodup_singleton _)

theorem inv_copying (h : Inv mac s) {answer : Answer} {frame : List UInt8} {index : Nat}
    (hcall : s.call t = .copying frame index) (hs : s.advance mac t answer (s.call t) = some s') :
    Inv mac s' := by
  obtain ⟨hrunning, haccepted, hbytes⟩ : CallOk mac s (.copying frame index) := hcall ▸ h.calls t
  rw [hcall, Controller.advance] at hs
  split at hs
  · cases hs
    refine inv_store h (by rw [hcall]; rfl) rfl ⟨hrunning, haccepted, fun i hi => ?_⟩
    by_cases heq : i = index
    · rw [heq]
      exact Function.update_self ..
    · exact (Function.update_of_ne heq ..).trans (hbytes i (by omega))
  · rename_i hend
    cases hs
    refine inv_goto h (by simp [hcall]) (by rw [hcall]; rfl)
      ⟨hrunning, haccepted, Nat.zero_le _, fun i hi => ?_⟩
    rw [hbytes i (by omega)]
    split
    · rename_i hfirst
      unfold withSource
      rw [if_neg (by omega)]
    · rfl

theorem inv_addressing (h : Inv mac s) {answer : Answer} {frame : List UInt8} {index : Nat}
    (hcall : s.call t = .addressing frame index) (hs : s.advance mac t answer (s.call t) = some s') :
    Inv mac s' := by
  obtain ⟨hrunning, haccepted, hindex, hbytes⟩ : CallOk mac s (.addressing frame index) := hcall ▸ h.calls t
  rw [hcall, Controller.advance] at hs
  split at hs
  · rename_i hlt
    cases hs
    refine inv_store h (by rw [hcall]; rfl) rfl ⟨hrunning, haccepted, by omega, fun i hi => ?_⟩
    by_cases heq : i = macAddressSize + index
    · rw [heq, if_pos (by omega), withSource, if_pos (by omega), Nat.add_sub_cancel_left]
      exact Function.update_self ..
    · refine (Function.update_of_ne heq ..).trans ((hbytes i hi).trans ?_)
      by_cases hi : i < macAddressSize + index
      · rw [if_pos hi, if_pos (by omega)]
      · rw [if_neg hi, if_neg (by omega)]
  · rename_i hend
    cases hs
    refine inv_goto h (by simp [hcall]) (by rw [hcall]; rfl) ⟨hrunning, haccepted, fun i hi => ?_⟩
    rw [hbytes i hi]
    split
    · rfl
    · unfold withSource
      rw [if_neg (by omega)]

theorem outgoing_addressed {frame : List UInt8} (h : ∀ i < frame.length, s.txFrame i = withSource mac frame i) :
    s.outgoing frame.length = addressed mac frame :=
  List.map_congr_left fun i hi => h i (List.mem_range.mp hi)

theorem inv_transmitting (h : Inv mac s) {frame : List UInt8} (hcall : s.call t = .transmitting frame)
    (answer : Answer) : Inv mac ({ s with
      sent := if answer = Answer.ok then s.sent ++ [s.outgoing frame.length] else s.sent }.goto t
        (.leaving [.transmit] answer.transmitted)) := by
  obtain ⟨-, haccepted, hbytes⟩ : CallOk mac s (.transmitting frame) := hcall ▸ h.calls t
  refine inv_next h rfl rfl (by rw [hcall]; rfl) (List.nodup_singleton _)
    (fun u _ => callOk_congr (s := s) rfl rfl rfl (h.calls u)) (agree_goto h (by simp [hcall]) _) ?_
  intro bytes hmem
  dsimp only [Controller.goto] at hmem
  split at hmem
  · rcases List.mem_append.mp hmem with hmem | hmem
    · exact h.sent bytes hmem
    · rw [List.mem_singleton.mp hmem]
      exact ⟨frame, haccepted, outgoing_addressed hbytes⟩
  · exact h.sent bytes hmem

theorem inv_advance (h : Inv mac s) {answer : Answer} (hs : s.advance mac t answer (s.call t) = some s') :
    Inv mac s' := by
  have hok := h.calls t
  generalize hcall : s.call t = call at hs hok
  cases call with
  | idle => cases hs
  | locking operation n => exact inv_acquire h hcall hs
  | checking operation =>
    cases hs
    exact inv_check h hcall
  | configuring n =>
    have hheld : held (s.call t) = allMutexes := by rw [hcall]; rfl
    have hset : ∀ running, s.call t ≠ .setting running := by simp [hcall]
    rw [Controller.advance] at hs
    split at hs
    · cases hs
      exact inv_goto h hset hheld.symm (by decide : allMutexes.Nodup)
    · split at hs
      · cases hs
        exact inv_goto h hset hheld.symm hok
      · cases hs
        exact inv_switch h hheld rfl rfl (Or.inr ⟨true, rfl⟩)
  | stopping =>
    have hheld : held (s.call t) = allMutexes := by rw [hcall]; rfl
    rw [Controller.advance] at hs
    split at hs
    · cases hs
      exact inv_switch h hheld rfl rfl (Or.inr ⟨false, rfl⟩)
    · cases hs
      exact inv_goto h (by simp [hcall]) hheld.symm (by decide : allMutexes.Nodup)
  | setting running =>
    cases hs
    have hstarted : s.started = running := hok
    exact inv_switch h (by rw [hcall]; rfl) rfl (by decide : allMutexes.Nodup) (Or.inl hstarted.symm)
  | checked e running =>
    cases hs
    exact inv_checked h hcall
  | copying frame index => exact inv_copying h hcall (hcall ▸ hs)
  | addressing frame index => exact inv_addressing h hcall (hcall ▸ hs)
  | transmitting frame =>
    cases hs
    exact inv_transmitting h hcall answer
  | receiving =>
    cases hs
    have hset : ∀ running, s.call t ≠ .setting running := by simp [hcall]
    cases answer with
    | again => exact inv_goto h hset (by rw [hcall]) hok
    | _ => exact inv_goto h hset (by rw [hcall]; rfl) (List.nodup_singleton _)
  | leaving held outcome =>
    have hset : ∀ running, s.call t ≠ .setting running := by simp [hcall]
    cases held with
    | nil =>
      cases hs
      exact inv_goto h hset (by rw [hcall]; rfl) trivial
    | cons mutex rest =>
      cases hs
      obtain ⟨hmutex, hrest⟩ := List.nodup_cons.mp hok
      exact inv_release h hset (by rw [hcall]; rfl) hmutex hrest

theorem inv_step (h : Inv mac s) {i : Action} (hs : step mac s i = some s') : Inv mac s' := by
  cases i with
  | call t operation =>
    simp only [step, Option.ite_none_right_eq_some, Option.some.injEq] at hs
    obtain ⟨hidle, rfl⟩ := hs
    have hset : ∀ running, s.call t ≠ .setting running := by simp [hidle]
    unfold Operation.first
    split
    · rename_i haccepted
      exact inv_goto h hset (by rw [hidle]; rfl) haccepted
    · exact inv_goto h hset (by rw [hidle]; rfl) List.nodup_nil
  | advance t answer => exact inv_advance h hs

/-- The thread is in a call of the HAL for the frames. -/
def Exchanging : Call → Prop
  | .transmitting _ | .receiving => True
  | _ => False

/-- The thread is in a call of the HAL that starts or stops the controller. -/
def Switching : Call → Prop
  | .configuring _ | .stopping => True
  | _ => False

structure Safe (mac : List UInt8) (s : Controller) : Prop where
  started : ∀ t, Exchanging (s.call t) → s.started = true ∧ s.running = true
  alone : ∀ t u, Switching (s.call t) → Switching (s.call u) ∨ Exchanging (s.call u) → t = u
  exclusive : ∀ t u frame frame', s.call t = .transmitting frame → s.call u = .transmitting frame' → t = u
  receiver : ∀ t u, s.call t = .receiving → s.call u = .receiving → t = u
  outgoing : ∀ t frame, s.call t = .transmitting frame →
    frame.length ≤ ethDmaFrameBufferSize ∧ s.outgoing frame.length = addressed mac frame
  sent : ∀ bytes ∈ s.sent, ∃ frame, Accepted frame ∧ bytes = addressed mac frame
  agree : (∀ t running, s.call t ≠ .setting running) → s.running = s.started
  unblocked : ∀ threads : Set ThreadId, ¬ Deadlocked (fun t mutex => s.owner mutex = some t)
    (fun t mutex => awaited (s.call t) = some mutex) threads

theorem exchanging_started (h : Inv mac s) (ht : Exchanging (s.call t)) :
    s.started = true ∧ s.running = true := by
  have hok := h.calls t
  generalize s.call t = call at ht hok
  cases call with
  | transmitting frame => exact hok.1.symm
  | receiving => exact hok.symm
  | _ => cases ht

theorem switching_holds (ht : Switching (s.call t)) (mutex : Mutex) : mutex ∈ held (s.call t) := by
  generalize s.call t = call at ht
  cases call with
  | configuring n | stopping => exact mem_allMutexes mutex
  | _ => cases ht

theorem exchanging_holds (ht : Exchanging (s.call t)) : ∃ mutex, mutex ∈ held (s.call t) := by
  generalize s.call t = call at ht
  cases call with
  | transmitting frame | receiving => exact ⟨_, List.mem_singleton_self _⟩
  | _ => cases ht

theorem inv_safe (h : Inv mac s) : Safe mac s where
  started := fun t => exchanging_started h
  alone := fun t u ht hu => by
    rcases hu with hu | hu
    · exact h.owned.exclusive (switching_holds ht .state) (switching_holds hu .state)
    · obtain ⟨mutex, hmem⟩ := exchanging_holds hu
      exact h.owned.exclusive (switching_holds ht mutex) hmem
  exclusive := fun t u frame frame' ht hu => by
    have hfirst : Mutex.transmit ∈ held (s.call t) := by
      rw [ht]
      exact List.mem_singleton_self _
    have hsecond : Mutex.transmit ∈ held (s.call u) := by
      rw [hu]
      exact List.mem_singleton_self _
    exact h.owned.exclusive hfirst hsecond
  receiver := fun t u ht hu => by
    have hfirst : Mutex.receive ∈ held (s.call t) := by
      rw [ht]
      exact List.mem_singleton_self _
    have hsecond : Mutex.receive ∈ held (s.call u) := by
      rw [hu]
      exact List.mem_singleton_self _
    exact h.owned.exclusive hfirst hsecond
  outgoing := fun t frame ht => by
    obtain ⟨-, haccepted, hbytes⟩ : CallOk mac s (.transmitting frame) := ht ▸ h.calls t
    exact ⟨haccepted.2.trans (by decide), outgoing_addressed hbytes⟩
  sent := h.sent
  agree := fun hnone => h.agree.resolve_right fun ⟨t, running, ht⟩ => hnone t running ht
  unblocked := not_deadlocked rank fun _ _ _ hholds hawaits =>
    rank_lt ((h.owned _ _).mp hholds) hawaits

theorem controller_safe (h : Runs.Reached (step mac) (fun _ _ => True) {} s) : Safe mac s :=
  inv_safe (h.invariant (inv_initial mac) fun _ _ _ hinv _ hs => inv_step hinv hs)

end

/-- Thread 0 starts the controller; thread 2 waits to stop it while thread 1 transmits. -/
def stopWaits : List Action :=
  .call 0 .start :: List.replicate 13 (.advance 0 .ok) ++
    .call 1 (.exchange (.transmit (List.replicate 14 0xFF))) :: List.replicate 26 (.advance 1 .ok) ++
    [.call 2 .stop]

theorem controller_safe_stopWaits : ∃ s, Runs.perform (step [2, 0, 0, 0, 0, 1]) {} stopWaits = some s ∧
    s.call 1 = .transmitting (List.replicate 14 0xFF) ∧ s.call 2 = .locking .stop 0 ∧
    s.outgoing 14 = List.replicate 6 0xFF ++ [2, 0, 0, 0, 0, 1, 0xFF, 0xFF] ∧
    Safe [2, 0, 0, 0, 0, 1] s := by
  have hsome : (Runs.perform (step [2, 0, 0, 0, 0, 1]) {} stopWaits).isSome = true := by decide +kernel
  obtain ⟨s, hs⟩ := Option.isSome_iff_exists.mp hsome
  have hstate : (Runs.perform (step [2, 0, 0, 0, 0, 1]) {} stopWaits).map
      (fun s => (s.call 1, s.call 2, s.outgoing 14)) =
      some (.transmitting (List.replicate 14 0xFF), .locking .stop 0,
        List.replicate 6 0xFF ++ [2, 0, 0, 0, 0, 1, 0xFF, 0xFF]) := by decide +kernel
  rw [hs, Option.map_some, Option.some.injEq, Prod.mk.injEq, Prod.mk.injEq] at hstate
  obtain ⟨htransmit, hstop, hbytes⟩ := hstate
  exact ⟨s, hs, htransmit, hstop, hbytes,
    controller_safe (Runs.reached_of_perform hs (Runs.performs_always (fun _ _ => trivial) _))⟩

end SimPLCity.EthernetController
