import SimPLCity.ThreadXObjects

/-! A semaphore whose ThreadX semaphore is created when it is first used, by any number of threads.
Every step is one access to the published pointer, one allocation, one ThreadX call, or the end of
a wait for a token. -/

namespace SimPLCity.LazySemaphores
open LazyCreation ThreadXObjects

inductive Operation
  | wait | tryWait | timedWait | post
deriving DecidableEq, Repr

inductive Answer
  | ok | enomem | einval | eagain | etimedout | eoverflow
deriving DecidableEq, Repr

inductive Place
  | user
  -- `ensure_semaphore`
  | load | ensure (e : Ensure)
  -- the ThreadX call of the operation, and the wait for a token
  | call (n : NativeId) | suspended (n : NativeId)
  | returned (answer : Answer)
deriving DecidableEq, Repr

/-- A call whose ThreadX call has decided what it returns. -/
structure Result (τ : Type*) where
  thread : τ
  operation : Operation
  answer : Answer
deriving DecidableEq, Repr

/-- The last three are for the proofs only: the semaphores that have been published, those on which
ThreadX calls were made, and the results. -/
structure State (τ ν : Type*) extends Lazy τ ν where
  initialCount : Nat
  place : τ → Place := fun _ => .user
  operation : τ → Operation := fun _ => .wait
  published : List NativeId := []
  acted : List NativeId := []
  results : List (Result τ) := []

section
variable {τ ν : Type*} [DecidableEq τ]

def State.go (s : State τ ν) (t : τ) (p : Place) : State τ ν :=
  { s with place := Function.update s.place t p }

def State.answer (s : State τ ν) (t : τ) (answer : Answer) : State τ ν :=
  { s.go t (.returned answer) with results := s.results ++ [⟨t, s.operation t, answer⟩] }

/-- A ThreadX call on the semaphore `n` leaves it as `native`. -/
def State.act (s : State τ ν) (n : NativeId) (native : ν) : State τ ν :=
  { s with toLazy := s.toLazy.act n native, acted := s.acted ++ [n] }

def Place.isUser : Place → Bool
  | .user | .returned _ => true
  | _ => false

def publishes : Ensure → List NativeId
  | .store n => [n]
  | _ => []

section
variable (k : SemaphoreKind τ ν)

def initial (c : Nat) : State τ ν := { initialCount := c, natives := fun _ => k.make c }

/-- The next step of `ensure_semaphore`. -/
def ensureSemaphore (s : State τ ν) (t : τ) (succeeds : Bool) : Option (State τ ν) :=
  match s.place t with
  | .load =>
    match s.implementation with
    | some n => some (s.go t (.call n))
    | none => some (s.go t (.ensure .enter))
  | .ensure e =>
    (ensure (k.toKind s.initialCount) s.toLazy t succeeds e).map fun next =>
      let s := { s with toLazy := next.1, published := s.published ++ publishes e }
      match next.2 with
      | .goes e => s.go t (.ensure e)
      | .returns (some n) => s.go t (.call n)
      | .returns none => s.answer t .enomem
  | _ => none

/-- `tx_semaphore_get`; without a token the thread is suspended, unless it must not wait. -/
def semaphoreGet (s : State τ ν) (t : τ) (n : NativeId) (refusal : Option Answer) : State τ ν :=
  match k.get (s.natives n), refusal with
  | some native, _ => (s.act n native).answer t .ok
  | none, some answer => (s.act n (s.natives n)).answer t answer
  | none, none => (s.act n (k.suspend (s.natives n) t)).go t (.suspended n)

/-- `tx_semaphore_put`; the thread that gets the token has its wait succeed. -/
def semaphorePut (s : State τ ν) (t : τ) (n : NativeId) : State τ ν :=
  match k.put (s.natives n) with
  | (none, native) => (s.act n native).answer t .ok
  | (some w, native) => ((s.act n native).answer w .ok).answer t .ok

/-- The ThreadX call of the operation. `expired` is whether the deadline of a timed wait has
passed, `fails` whether a put fails. -/
def callNative (s : State τ ν) (t : τ) (expired fails : Bool) : Option (State τ ν) :=
  match s.place t with
  | .call n =>
    match s.operation t with
    | .wait => some (semaphoreGet k s t n none)
    | .tryWait => some (semaphoreGet k s t n (some .eagain))
    | .timedWait => some (semaphoreGet k s t n (if expired then some .etimedout else none))
    | .post =>
      if fails then some ((s.act n (s.natives n)).answer t .eoverflow)
      else some (semaphorePut k s t n)
  | _ => none

/-- The ticks of a timed wait are over: it looks at the deadline again. -/
def timeout (s : State τ ν) (t : τ) : Option (State τ ν) :=
  match s.place t, s.operation t with
  | .suspended n, .timedWait =>
    some ((s.act n (k.ends (s.natives n) t)).go t (.call n))
  | _, _ => none

/-- The wait is aborted. -/
def waitAborted (s : State τ ν) (t : τ) : Option (State τ ν) :=
  match s.place t with
  | .suspended n => some ((s.act n (k.ends (s.natives n) t)).answer t .einval)
  | _ => none

inductive Action (τ : Type*)
  | call (t : τ) (operation : Operation)
  | ensure (t : τ) (succeeds : Bool)
  | native (t : τ) (expired fails : Bool)
  | timeout (t : τ)
  | abort (t : τ)
deriving DecidableEq, Repr

def step (s : State τ ν) : Action τ → Option (State τ ν)
  | .call t operation =>
    if (s.place t).isUser then
      some ({ s with operation := Function.update s.operation t operation }.go t .load)
    else none
  | .ensure t succeeds => ensureSemaphore k s t succeeds
  | .native t expired fails => callNative k s t expired fails
  | .timeout t => timeout k s t
  | .abort t => waitAborted k s t

end

end

end SimPLCity.LazySemaphores
