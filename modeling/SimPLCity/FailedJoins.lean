import SimPLCity.ControlBlocks

/-! Joins that fail. One control block of `ThreadLifecycle` with its thread and all the callers of
`thread_join` and `thread_detach` on it, who may call again after a failure. Of the cleanup queue and
the reaper there is what concerns this block; a block is not used once it is deleted. -/

namespace SimPLCity.FailedJoins
open ThreadLifecycle (ControlId Agent Phase DetachStep ThreadControl)
open ControlBlocks (posted holds sends sends_unlock sends_put)

inductive JoinPlace
  | wait | create | lock | mark | refuse | unlock | send | acknowledge
deriving DecidableEq, Repr

/-- What a call has returned: 0 of a join or of a detach, EDEADLK, EINVAL or EAGAIN. -/
inductive Outcome
  | joined | detached | deadlock | invalid | again
deriving DecidableEq, Repr

/-- Where a caller is, in its own code after the last call or in a call. -/
inductive Place
  | user (last : Option Outcome)
  | join (p : JoinPlace)
  | detach (p : DetachStep)
deriving DecidableEq, Repr

inductive Reaper
  | receive | waiting | deleting (ack : Option Agent) | acknowledging (ack : Option Agent)
deriving DecidableEq, Repr

/-- `messages` counts those about the block in the cleanup queue. `expected` is the block as it
would be if a join did nothing before it marks the block, without the lifecycle mutex, for the
proofs only. -/
structure State where
  control : ThreadControl := {}
  phase : Phase := .start
  places : Agent → Place := fun _ => .user none
  acknowledgement : Agent → Nat := fun _ => 0
  messages : Nat := 0
  reaper : Reaper := .receive
  deleted : Bool := false
  expected : ThreadControl := {}

def initial : State := {}

def State.put (s : State) (a : Agent) (p : Place) : State :=
  { s with places := Function.update s.places a p }

@[simp] theorem State.put_self (s : State) (a : Agent) (p : Place) : (s.put a p).places a = p :=
  Function.update_self ..

theorem State.put_other (s : State) {a b : Agent} (hb : b ≠ a) (p : Place) :
    (s.put a p).places b = s.places b := Function.update_of_ne hb ..

/-- Changes the block and what is expected of it. -/
def State.change (s : State) (f : ThreadControl → ThreadControl) : State :=
  { s with control := f s.control, expected := f s.expected }

def State.lock (s : State) (a : Agent) : State := { s with control := s.control.lock a }

def State.unlock (s : State) : State := { s with control := s.control.unlock }

def State.send (s : State) : State := { s with messages := s.messages + 1 }

def State.setAcknowledgement (s : State) (a : Agent) (n : Nat) : State :=
  { s with acknowledgement := Function.update s.acknowledgement a n }

section
variable (c : ControlId)

/-- The thread of the block runs user code in its body and in its exit destructors. -/
def inUserCode (s : State) (a : Agent) : Bool :=
  match s.places a with
  | .user _ => a ≠ .thread c || s.phase = .body || s.phase = .exit
  | _ => false

/-- `thread_entry` but for the call of the entry function. -/
def threadEntry (s : State) : Option State :=
  match s.phase with
  | .start => some { s with phase := .body }
  | .lock =>
    if s.control.lifecycleMutex = none then
      some { s.lock (.thread c) with phase := .mark }
    else none
  | .mark =>
    some { s.change ThreadControl.finish with phase := .unlock s.control.finishEnqueues }
  | .unlock enqueue => some { s.unlock with phase := .put enqueue }
  | .put enqueue =>
    some { s.change ThreadControl.putCompletion with phase := if enqueue then .send else .exit }
  | .send => some { s.send with phase := .exit }
  | _ => none

/-- The entry function returns, or the exit destructors are done. -/
def returns (s : State) : Option State :=
  if inUserCode c s (.thread c) then
    match s.phase with
    | .body => some { s with phase := .lock }
    | .exit => some { s with phase := .completed }
    | _ => none
  else none

def callJoin (s : State) (a : Agent) : Option State :=
  if inUserCode c s a && !s.deleted then
    some (s.put a (if a = .thread c then .user (some .deadlock) else .join .wait))
  else none

def callDetach (s : State) (a : Agent) : Option State :=
  if inUserCode c s a && !s.deleted then some (s.put a (.detach .lock)) else none

def threadJoin (s : State) (a : Agent) : JoinPlace → Option State
  | .wait =>
    if 0 < s.control.completion then
      some (State.put { s with control := s.control.takeCompletion } a (.join .create))
    else none
  | .create => none
  | .lock =>
    if s.control.lifecycleMutex = none then
      some ((s.lock a).put a (.join .mark))
    else none
  | .mark =>
    if s.control.isClaimed then some (s.put a (.join .refuse))
    else
      -- from here on the join is not undone
      let s := { s with expected := s.expected.takeCompletion }
      some ((s.change fun k => k.join a).put a (.join .unlock))
  | .refuse => some (s.unlock.put a (.user (some .invalid)))
  | .unlock => some (s.unlock.put a (.join .send))
  | .send => some (s.send.put a (.join .acknowledge))
  | .acknowledge =>
    if 0 < s.acknowledgement a then
      some ((s.setAcknowledgement a (s.acknowledgement a - 1)).put a (.user (some .joined)))
    else none

/-- The wait for completion is aborted. -/
def joinAborted (s : State) (a : Agent) : Option State :=
  if s.places a = .join .wait then some (s.put a (.user (some .invalid))) else none

/-- The semaphore for the acknowledgement is created, or it is not. -/
def joinCreates (s : State) (a : Agent) (created : Bool) : Option State :=
  if s.places a = .join .create then
    some (if created then (s.setAcknowledgement a 0).put a (.join .lock)
      else s.put a (.user (some .again)))
  else none

def threadDetach (s : State) (a : Agent) : DetachStep → Option State
  | .lock =>
    if s.control.lifecycleMutex = none then some ((s.lock a).put a (.detach .mark))
    else none
  | .mark =>
    if s.control.isClaimed then some (s.put a (.detach .refuse))
    else some ((s.change ThreadControl.detach).put a (.detach (.unlock s.control.finished)))
  | .refuse => some (s.unlock.put a (.user (some .invalid)))
  | .unlock enqueue =>
    some (s.unlock.put a (if enqueue then .detach .send else .user (some .detached)))
  | .send => some (s.send.put a (.user (some .detached)))

/-- The next step of a caller's join or detach. -/
def call (s : State) (a : Agent) : Option State :=
  match s.places a with
  | .join p => if s.deleted && p ≠ .acknowledge then none else threadJoin s a p
  | .detach p => if s.deleted then none else threadDetach s a p
  | .user _ => none

def reaperEntry (s : State) : Option State :=
  match s.reaper with
  | .receive =>
    if 0 < s.messages && !s.deleted then
      some { s with messages := s.messages - 1, reaper := .waiting }
    else none
  | .waiting =>
    if s.phase = .completed then some { s with reaper := .deleting s.control.cleanupAck } else none
  | .deleting ack => some { s with deleted := true, reaper := .acknowledging ack }
  | .acknowledging none => some { s with reaper := .receive }
  | .acknowledging (some a) =>
    some { s.setAcknowledgement a (s.acknowledgement a + 1) with reaper := .receive }

inductive Action
  | entry | returns | reap
  | join (a : Agent)
  | detach (a : Agent)
  | call (a : Agent)
  | aborted (a : Agent)
  | creates (a : Agent) (created : Bool)
deriving DecidableEq, Repr

def step (s : State) : Action → Option State
  | .entry => threadEntry c s
  | .returns => returns c s
  | .reap => reaperEntry s
  | .join a => callJoin c s a
  | .detach a => callDetach c s a
  | .call a => call s a
  | .aborted a => joinAborted s a
  | .creates a created => joinCreates s a created

end

/-- The caller is in a join that holds the completion token and has not marked the block. -/
def Place.undecided : Place → Bool
  | .join .create | .join .lock | .join .mark | .join .refuse => true
  | _ => false

def Place.inSection : Place → Bool
  | .join .mark | .join .refuse | .join .unlock => true
  | .detach .mark | .detach .refuse | .detach (.unlock _) => true
  | _ => false

/-- The agent is where it has the lifecycle mutex. -/
def Owns (c : ControlId) (s : State) (a : Agent) : Prop :=
  (s.places a).inSection = true ∨ a = .thread c ∧ holds s.phase = true

/-- The joins that have failed have left the block as it would be without them, and the mutex
free. -/
def Unchanged (c : ControlId) (s : State) : Prop :=
  ((∀ a, (s.places a).undecided = false) → { s.control with lifecycleMutex := none } = s.expected) ∧
    ∀ a, s.control.lifecycleMutex = some a → Owns c s a

/-- In its own code, or in a join that waits for completion. -/
def Place.waits : Place → Bool
  | .user _ | .join .wait => true
  | _ => false

/-- While the thread is neither detached nor joined, another join can succeed. -/
def Rejoinable (c : ControlId) (s : State) : Prop :=
  s.control.detached = false → s.control.cleanupQueued = false → (∀ a, (s.places a).waits = true) →
    ∀ b ≠ .thread c, inUserCode c s b = true → ∃ s₁, step c s (.join b) = some s₁ ∧
      ∃ s', Runs.Reached (step c) (fun _ _ => True) s₁ s' ∧ s'.places b = .user (some .joined)

/-- The condition on a step: a join that holds the token gets its semaphore, and finds the block
neither detached nor queued. -/
def Decides (s : State) : Action → Prop
  | .creates _ created => created = true
  | .call a => s.places a = .join .mark → s.control.detached = false ∧ s.control.cleanupQueued = false
  | _ => True

/-- The thread exists. -/
@[simp] def begun : Phase → Bool
  | .absent | .registered => false
  | _ => true

/-- The caller has queued the block, and its call is not over. -/
def Place.sends : Place → Bool
  | .join .unlock | .join .send | .join .acknowledge | .detach .send => true
  | .detach (.unlock enqueue) => enqueue
  | _ => false

/-- Nothing is under way about a block that is not queued. -/
structure Idle (s : State) : Prop where
  messages : s.messages = 0
  reaper : s.reaper = .receive
  deleted : s.deleted = false
  phase : sends s.phase = false
  places : ∀ a, (s.places a).sends = false

/-- Who holds the token, if anyone, is the one whose join may still fail. -/
structure Holds (s : State) (h : Option Agent) : Prop where
  undecided : ∀ a, (s.places a).undecided = true ↔ h = some a
  completion : s.expected.completion = s.control.completion + if h.isSome then 1 else 0

/-- Where everybody is and what the flags say about it. -/
structure Placed (c : ControlId) (s : State) : Prop where
  same : s.expected = { s.control with completion := s.expected.completion, lifecycleMutex := none }
  owner : ∀ a, s.control.lifecycleMutex = some a → Owns c s a
  ack : s.control.cleanupAck.isSome = true → s.control.cleanupQueued = true
  idle : s.control.cleanupQueued = false → Idle s
  refuses : ∀ a, s.places a ≠ .join .refuse
  own : ∀ p, s.places (.thread c) ≠ .join p
  started : begun s.phase = true

structure Good (c : ControlId) (s : State) : Prop extends Placed c s where
  token : ∃ h, Holds s h
  count : s.expected.completion + (if s.control.cleanupAck.isSome then 1 else 0) =
    if posted s.phase then 1 else 0

section
variable {c : ControlId} {s s' : State} {a : Agent}

theorem good_initial : Good c initial where
  token := ⟨none, by simp [initial, Place.undecided], rfl⟩
  same := rfl
  owner := by simp [initial]
  count := rfl
  ack := by simp [initial]
  idle := fun _ => ⟨rfl, rfl, rfl, rfl, fun _ => rfl⟩
  refuses := by simp [initial]
  own := by simp [initial]
  started := by simp [initial]

theorem Placed.queued (h : Placed c s) (hs : (s.places a).sends = true) :
    s.control.cleanupQueued = true := by
  by_contra hq
  have := (h.idle (Bool.eq_false_iff.mpr hq)).places a
  rw [hs] at this
  cases this

theorem Placed.queued_phase (h : Placed c s) (hs : sends s.phase = true) :
    s.control.cleanupQueued = true := by
  by_contra hq
  have := (h.idle (Bool.eq_false_iff.mpr hq)).phase
  rw [hs] at this
  cases this

theorem Placed.put (h : Placed c s) {p : Place}
    (hsection : (s.places a).inSection = true → s.control.lifecycleMutex = some a → p.inSection = true)
    (hsends : p.sends = true → s.control.cleanupQueued = true)
    (hp : ∀ q, p = .join q → q ≠ .refuse ∧ a ≠ .thread c) : Placed c (s.put a p) := by
  refine { h with owner := fun b hb => ?_, idle := fun hq => ?_, refuses := fun b => ?_
                  own := fun q => ?_ }
  · rcases h.owner b hb with hin | hown
    · refine Or.inl ?_
      by_cases hba : b = a
      · subst hba
        rw [State.put_self]
        exact hsection hin hb
      · rwa [State.put_other s hba]
    · exact Or.inr hown
  · obtain ⟨hmessages, hreaper, hdeleted, hphase, hplaces⟩ := h.idle hq
    refine ⟨hmessages, hreaper, hdeleted, hphase, fun b => ?_⟩
    by_cases hb : b = a
    · subst hb
      rw [State.put_self, Bool.eq_false_iff]
      intro hps
      exact absurd (hsends hps) (Bool.eq_false_iff.mp hq)
    · rw [State.put_other s hb]
      exact hplaces b
  · by_cases hb : b = a
    · subst hb
      rw [State.put_self]
      exact fun heq => (hp _ heq).1 rfl
    · rw [State.put_other s hb]
      exact h.refuses b
  · by_cases hb : .thread c = a
    · subst hb
      rw [State.put_self]
      exact fun heq => (hp _ heq).2 rfl
    · rw [State.put_other s hb]
      exact h.own q

theorem Placed.move (h : Placed c s) {p : Phase}
    (hsection : holds s.phase = true → s.control.lifecycleMutex = some (.thread c) →
      holds p = true)
    (hsends : sends p = true → s.control.cleanupQueued = true) (hp : begun p = true) :
    Placed c { s with phase := p } := by
  refine { h with owner := fun b hb => ?_, idle := fun hq => ?_, started := hp }
  · rcases h.owner b hb with hin | ⟨rfl, hin⟩
    · exact Or.inl hin
    · exact Or.inr ⟨rfl, hsection hin hb⟩
  · obtain ⟨hmessages, hreaper, hdeleted, -, hplaces⟩ := h.idle hq
    refine ⟨hmessages, hreaper, hdeleted, ?_, hplaces⟩
    rw [Bool.eq_false_iff]
    intro hps
    exact absurd (hsends hps) (Bool.eq_false_iff.mp hq)

/-- Marks the block and leaves its semaphore and its mutex alone. -/
structure Marks (f : ThreadControl → ThreadControl) : Prop where
  free : ∀ k n, f { k with completion := n, lifecycleMutex := none } =
    { f k with completion := n, lifecycleMutex := none }
  mutex : ∀ k, (f k).lifecycleMutex = k.lifecycleMutex
  completion : ∀ k, (f k).completion = k.completion
  queued : ∀ k, k.cleanupQueued = true → (f k).cleanupQueued = true
  ack : ∀ k, (k.cleanupAck.isSome = true → k.cleanupQueued = true) →
    (f k).cleanupAck.isSome = true → (f k).cleanupQueued = true

theorem marks_finish : Marks ThreadControl.finish where
  free _ _ := rfl
  mutex _ := rfl
  completion _ := rfl
  queued _ hq := Bool.or_eq_true_iff.mpr (Or.inl hq)
  ack _ h hack := Bool.or_eq_true_iff.mpr (Or.inl (h hack))

theorem marks_join (a : Agent) : Marks fun k => k.join a where
  free _ _ := rfl
  mutex _ := rfl
  completion _ := rfl
  queued _ _ := rfl
  ack _ _ _ := rfl

theorem marks_detach : Marks ThreadControl.detach where
  free _ _ := rfl
  mutex _ := rfl
  completion _ := rfl
  queued _ hq := Bool.or_eq_true_iff.mpr (Or.inl hq)
  ack _ h hack := Bool.or_eq_true_iff.mpr (Or.inl (h hack))

theorem Placed.change (h : Placed c s) {f : ThreadControl → ThreadControl} (hf : Marks f) :
    Placed c (s.change f) := by
  refine { h with same := ?_, owner := fun a ha => ?_, ack := hf.ack _ h.ack, idle := fun hq => ?_ }
  · have hsame := congrArg f h.same
    rw [hf.free] at hsame
    have hcompletion := congrArg ThreadControl.completion hsame
    simp only [State.change]
    rw [hcompletion]
    exact hsame
  · exact h.owner a ((hf.mutex _).symm.trans ha)
  · have hq' : s.control.cleanupQueued = false := by
      rw [Bool.eq_false_iff]
      intro hqueued
      exact absurd (hf.queued _ hqueued) (Bool.eq_false_iff.mp hq)
    obtain ⟨hmessages, hreaper, hdeleted, hphase, hplaces⟩ := h.idle hq'
    exact ⟨hmessages, hreaper, hdeleted, hphase, hplaces⟩

theorem Placed.complete (h : Placed c s) (n m : Nat) :
    Placed c { s with
      control := { s.control with completion := n }
      expected := { s.expected with completion := m } } := by
  refine { h with same := ?_, owner := h.owner, idle := fun hq => ?_ }
  · have hsame := h.same
    dsimp only
    rw [hsame]
  · obtain ⟨hmessages, hreaper, hdeleted, hphase, hplaces⟩ := h.idle hq
    exact ⟨hmessages, hreaper, hdeleted, hphase, hplaces⟩

theorem Holds.put {w : Option Agent} (hw : Holds s w) {p : Place}
    (hundecided : p.undecided = (s.places a).undecided) : Holds (s.put a p) w where
  undecided b := by
    by_cases hb : b = a
    · subst hb
      rw [State.put_self, hundecided, hw.undecided b]
    · rw [State.put_other s hb, hw.undecided b]
  completion := hw.completion

theorem Good.put (h : Good c s) {p : Place} (hundecided : p.undecided = (s.places a).undecided)
    (hsection : (s.places a).inSection = true → s.control.lifecycleMutex = some a → p.inSection = true)
    (hsends : p.sends = true → s.control.cleanupQueued = true)
    (hp : ∀ q, p = .join q → q ≠ .refuse ∧ a ≠ .thread c) : Good c (s.put a p) where
  toPlaced := h.toPlaced.put hsection hsends hp
  token := h.token.imp fun _ hw => hw.put hundecided
  count := h.count

theorem Good.move (h : Good c s) {p : Phase} (hended : posted p = posted s.phase)
    (hsection : holds s.phase = true → s.control.lifecycleMutex = some (.thread c) →
      holds p = true)
    (hsends : sends p = true → s.control.cleanupQueued = true) (hp : begun p = true) :
    Good c { s with phase := p } where
  toPlaced := h.toPlaced.move hsection hsends hp
  token := h.token.imp fun _ hw => ⟨hw.undecided, hw.completion⟩
  count := by
    rw [hended]
    exact h.count

theorem Good.change (h : Good c s) {f : ThreadControl → ThreadControl} (hf : Marks f)
    (hack : (f s.control).cleanupAck = s.control.cleanupAck) : Good c (s.change f) where
  toPlaced := h.toPlaced.change hf
  token := h.token.imp fun _ hw =>
    ⟨hw.undecided, by simpa only [State.change, hf.completion] using hw.completion⟩
  count := by
    simp only [State.change, hf.completion, hack]
    exact h.count

theorem Good.cleanup (h : Good c s) (hq : s.control.cleanupQueued = true) (messages : Nat)
    (reaper : Reaper) (deleted : Bool) :
    Good c { s with messages := messages, reaper := reaper, deleted := deleted } := by
  refine { h with token := h.token.imp fun _ hw => ⟨hw.undecided, hw.completion⟩, owner := h.owner
                  idle := fun hidle => ?_ }
  exact absurd hq (Bool.eq_false_iff.mp hidle)

theorem Good.setAcknowledgement (h : Good c s) (a : Agent) (n : Nat) :
    Good c (s.setAcknowledgement a n) := by
  refine { h with token := h.token.imp fun _ hw => ⟨hw.undecided, hw.completion⟩, owner := h.owner
                  idle := fun hq => ?_ }
  obtain ⟨hmessages, hreaper, hdeleted, hphase, hplaces⟩ := h.idle hq
  exact ⟨hmessages, hreaper, hdeleted, hphase, hplaces⟩

theorem Good.setMutex (h : Good c s) {owner : Option Agent} (ho : ∀ a, owner = some a → Owns c s a) :
    Good c { s with control := { s.control with lifecycleMutex := owner } } := by
  refine { h with same := h.same, token := h.token.imp fun _ hw => ⟨hw.undecided, hw.completion⟩
                  owner := ho, idle := fun hq => ?_ }
  obtain ⟨hmessages, hreaper, hdeleted, hphase, hplaces⟩ := h.idle hq
  exact ⟨hmessages, hreaper, hdeleted, hphase, hplaces⟩

theorem Good.lock (h : Good c s) (ha : Owns c s a) : Good c (s.lock a) := by
  refine h.setMutex fun b hb => ?_
  cases hb
  exact ha

theorem Good.unlock (h : Good c s) : Good c s.unlock := h.setMutex fun _ hb => by cases hb

theorem Good.send (h : Good c s) (hq : s.control.cleanupQueued = true) : Good c s.send :=
  h.cleanup hq (s.messages + 1) s.reaper s.deleted

theorem Good.put_token (h : Good c s) {enqueue : Bool} (hphase : s.phase = .put enqueue) :
    Good c { s.change ThreadControl.putCompletion with phase := if enqueue then .send else .exit } where
  toPlaced := by
    have hcomplete := h.toPlaced.complete (s.control.completion + 1) (s.expected.completion + 1)
    refine hcomplete.move (fun hin _ => ?_) (fun hsends => ?_) (by split <;> simp)
    · rw [hphase] at hin
      cases hin
    · refine h.queued_phase ?_
      rw [hphase]
      cases enqueue
      · cases hsends
      · rfl
  token := by
    obtain ⟨w, hundecided, hcompletion⟩ := h.token
    refine ⟨w, hundecided, ?_⟩
    simp only [State.change, ThreadControl.putCompletion]
    omega
  count := by
    have hcount := h.count
    have hended : posted (if enqueue then .send else .exit) = true := by split <;> rfl
    change s.expected.completion + 1 + (if s.control.cleanupAck.isSome then 1 else 0) =
      if posted (if enqueue then .send else .exit) then 1 else 0
    rw [hended, if_pos rfl]
    have hbefore : posted (.put enqueue) = false := rfl
    rw [hphase, hbefore, if_neg Bool.false_ne_true] at hcount
    omega

theorem Good.expected_le (h : Good c s) : s.expected.completion ≤ 1 := by
  have hcount := h.count
  split at hcount <;> split at hcount <;> omega

theorem Good.take_token (h : Good c s) (hplace : s.places a = .join .wait)
    (hpos : 0 < s.control.completion) :
    Good c (State.put { s with control := s.control.takeCompletion } a (.join .create)) where
  toPlaced := by
    have hcomplete := h.toPlaced.complete (s.control.completion - 1) s.expected.completion
    refine hcomplete.put (fun hin _ => ?_) (by simp [Place.sends]) (fun q hq => ?_)
    · rw [hplace] at hin
      cases hin
    · cases hq
      exact ⟨by simp, fun hc => h.own _ (hc ▸ hplace)⟩
  token := by
    obtain ⟨w, hundecided, hcompletion⟩ := h.token
    have hle := h.expected_le
    have hnone : w = none := by
      cases w with
      | none => rfl
      | some b =>
        rw [Option.isSome_some, if_pos rfl] at hcompletion
        omega
    subst hnone
    refine ⟨some a, fun b => ?_, ?_⟩
    · by_cases hb : b = a
      · subst hb
        simp [Place.undecided]
      · rw [State.put_other _ hb]
        simp [hundecided b, Ne.symm hb]
    · simp only [State.put, ThreadControl.takeCompletion, Option.isSome_some, if_true]
      simp only [Option.isSome_none, Bool.false_eq_true, if_false] at hcompletion
      omega
  count := h.count

/-- The join that has the token marks the block, and cannot fail any more. -/
theorem Good.commit (h : Good c s) (hplace : s.places a = .join .mark)
    (hqueued : s.control.cleanupQueued = false) :
    Good c ((State.change { s with expected := s.expected.takeCompletion } fun k => k.join a).put a
      (.join .unlock)) := by
  have hack : s.control.cleanupAck.isSome = false := by
    rw [Bool.eq_false_iff]
    exact fun hack => absurd (h.ack hack) (Bool.eq_false_iff.mp hqueued)
  obtain ⟨w, hundecided, hcompletion⟩ := h.token
  obtain rfl : w = some a := (hundecided a).mp (by rw [hplace]; rfl)
  rw [Option.isSome_some, if_pos rfl] at hcompletion
  have hcount := h.count
  rw [hack] at hcount
  have hne : a ≠ .thread c := fun hc => h.own _ (hc ▸ hplace)
  constructor
  · have hcomplete := h.toPlaced.complete s.control.completion (s.expected.completion - 1)
    exact (hcomplete.change (marks_join a)).put (fun _ _ => rfl) (fun _ => rfl)
      (fun q hq => by cases hq; exact ⟨by simp, hne⟩)
  · refine ⟨none, fun b => ?_, ?_⟩
    · by_cases hb : b = a
      · subst hb
        simp [Place.undecided]
      · rw [State.put_other _ hb]
        simp [State.change, hundecided b, Ne.symm hb]
    · simp only [State.put, State.change, ThreadControl.takeCompletion, ThreadControl.join]
      simp
      omega
  · change s.expected.completion - 1 + 1 = if posted s.phase then 1 else 0
    rw [if_neg Bool.false_ne_true] at hcount
    omega

theorem good_entry (h : Good c s) (hs : threadEntry c s = some s') : Good c s' := by
  unfold threadEntry at hs
  split at hs
  · rename_i hphase
    cases hs
    exact h.move (by rw [hphase]; rfl) (by simp [hphase, holds]) (by simp [sends]) (by simp)
  · rename_i hphase
    split at hs
    · cases hs
      have hmove := h.move (p := .mark) (by rw [hphase]; rfl) (fun _ _ => rfl) (by simp [sends])
        (by simp)
      exact hmove.lock (Or.inr ⟨rfl, rfl⟩)
    · cases hs
  · rename_i hphase
    cases hs
    refine (h.change marks_finish rfl).move (by rw [State.change, hphase]; rfl) (fun _ _ => rfl)
      (fun hsends => ?_) (by simp)
    rw [sends_unlock] at hsends
    exact Bool.or_eq_true_iff.mpr (Or.inr hsends)
  · rename_i enqueue hphase
    cases hs
    refine h.unlock.move (by rw [State.unlock, hphase]; rfl) (fun _ hmutex => by cases hmutex)
      (fun hsends => ?_) (by simp)
    rw [sends_put] at hsends
    exact h.queued_phase (by rw [hphase, sends_unlock, hsends])
  · rename_i enqueue hphase
    cases hs
    exact h.put_token hphase
  · rename_i hphase
    cases hs
    have hsend := h.send (h.queued_phase (by rw [hphase]; rfl))
    exact hsend.move (by rw [State.send, hphase]; rfl) (by simp [State.send, hphase, holds])
      (by simp [sends]) (by simp)
  · cases hs

theorem good_returns (h : Good c s) (hs : returns c s = some s') : Good c s' := by
  unfold returns at hs
  split at hs
  · split at hs
    · rename_i hphase
      cases hs
      exact h.move (by rw [hphase]; rfl) (by simp [hphase, holds]) (by simp [sends])
        (by simp)
    · rename_i hphase
      cases hs
      exact h.move (by rw [hphase]; rfl) (by simp [hphase, holds]) (by simp [sends])
        (by simp)
    · cases hs
  · cases hs

theorem good_reap (h : Good c s) (hs : reaperEntry s = some s') : Good c s' := by
  -- the reaper has nothing to do unless the block is queued
  have hq : s.messages ≠ 0 ∨ s.reaper ≠ .receive → s.control.cleanupQueued = true := by
    intro hbusy
    by_contra hq
    have hidle := h.idle (Bool.eq_false_iff.mpr hq)
    rcases hbusy with hbusy | hbusy
    · exact hbusy hidle.messages
    · exact hbusy hidle.reaper
  unfold reaperEntry at hs
  split at hs
  · split at hs
    · rename_i hmessages
      cases hs
      have hpos := of_decide_eq_true (Bool.and_eq_true_iff.mp hmessages).1
      exact h.cleanup (hq (Or.inl (Nat.pos_iff_ne_zero.mp hpos))) _ _ _
    · cases hs
  · rename_i hreaper
    split at hs
    · cases hs
      exact h.cleanup (hq (Or.inr (by simp [hreaper]))) _ _ _
    · cases hs
  · rename_i hreaper
    cases hs
    exact h.cleanup (hq (Or.inr (by simp [hreaper]))) _ _ _
  · rename_i hreaper
    cases hs
    exact h.cleanup (hq (Or.inr (by simp [hreaper]))) _ _ _
  · rename_i hreaper
    cases hs
    exact (h.setAcknowledgement _ _).cleanup (hq (Or.inr (by simp [hreaper]))) _ _ _

theorem place_of_user (hu : inUserCode c s a = true) : ∃ last, s.places a = .user last := by
  unfold inUserCode at hu
  split at hu
  · exact ⟨_, ‹_›⟩
  · cases hu

theorem good_callJoin (h : Good c s) (hs : callJoin c s a = some s') : Good c s' := by
  unfold callJoin at hs
  split at hs
  · rename_i hu
    cases hs
    obtain ⟨last, hplace⟩ := place_of_user (Bool.and_eq_true_iff.mp hu).1
    split
    · exact h.put (by rw [hplace]; rfl) (by simp [hplace, Place.inSection]) (by simp [Place.sends])
        (by simp)
    · rename_i hne
      exact h.put (by rw [hplace]; rfl) (by simp [hplace, Place.inSection]) (by simp [Place.sends])
        (fun q hq => by cases hq; exact ⟨by simp, hne⟩)
  · cases hs

theorem good_callDetach (h : Good c s) (hs : callDetach c s a = some s') : Good c s' := by
  unfold callDetach at hs
  split at hs
  · rename_i hu
    cases hs
    obtain ⟨last, hplace⟩ := place_of_user (Bool.and_eq_true_iff.mp hu).1
    exact h.put (by rw [hplace]; rfl) (by simp [hplace, Place.inSection]) (by simp [Place.sends])
      (by simp)
  · cases hs

theorem good_aborted (h : Good c s) (hs : joinAborted s a = some s') : Good c s' := by
  unfold joinAborted at hs
  split at hs
  · rename_i hplace
    cases hs
    exact h.put (by rw [hplace]; rfl) (by simp [hplace, Place.inSection]) (by simp [Place.sends])
      (by simp)
  · cases hs

theorem good_creates (h : Good c s) (hs : joinCreates s a true = some s') : Good c s' := by
  unfold joinCreates at hs
  split at hs
  · rename_i hplace
    cases hs
    have hne : a ≠ .thread c := fun hc => h.own _ (hc ▸ hplace)
    exact (h.setAcknowledgement a 0).put (by rw [State.setAcknowledgement, hplace]; rfl)
      (by simp [State.setAcknowledgement, hplace, Place.inSection]) (by simp [Place.sends])
      (fun q hq => by cases hq; exact ⟨by simp, hne⟩)
  · cases hs

theorem good_join {p : JoinPlace} (h : Good c s) (hplace : s.places a = .join p)
    (hdecides : p = .mark → s.control.detached = false ∧ s.control.cleanupQueued = false)
    (hs : threadJoin s a p = some s') : Good c s' := by
  have hne : a ≠ .thread c := fun hc => h.own _ (hc ▸ hplace)
  cases p with
  | wait =>
    simp only [threadJoin] at hs
    split at hs
    · cases hs
      exact h.take_token hplace ‹_›
    · cases hs
  | create => cases hs
  | lock =>
    simp only [threadJoin] at hs
    split at hs
    · cases hs
      have hput := h.put (a := a) (p := .join .mark) (by rw [hplace]; rfl) (fun _ _ => rfl)
        (by simp [Place.sends]) (fun q hq => by cases hq; exact ⟨by simp, hne⟩)
      exact hput.lock (Or.inl (by rw [State.put_self]; rfl))
    · cases hs
  | mark =>
    obtain ⟨hdetached, hqueued⟩ := hdecides rfl
    simp only [threadJoin, ThreadControl.isClaimed, hdetached, hqueued, Bool.or_false,
      Bool.false_eq_true, if_false] at hs
    cases hs
    exact h.commit hplace hqueued
  | refuse => exact absurd hplace (h.refuses a)
  | unlock =>
    cases hs
    have hq := h.queued (a := a) (by rw [hplace]; rfl)
    exact h.unlock.put (by rw [State.unlock, hplace]; rfl) (fun _ hmutex => by cases hmutex)
      (fun _ => hq) (fun q hq => by cases hq; exact ⟨by simp, hne⟩)
  | send =>
    cases hs
    have hq := h.queued (a := a) (by rw [hplace]; rfl)
    exact (h.send hq).put (by rw [State.send, hplace]; rfl) (by simp [State.send, hplace, Place.inSection])
      (fun _ => hq) (fun q hq => by cases hq; exact ⟨by simp, hne⟩)
  | acknowledge =>
    simp only [threadJoin] at hs
    split at hs
    · cases hs
      exact (h.setAcknowledgement a _).put (by rw [State.setAcknowledgement, hplace]; rfl)
        (by simp [State.setAcknowledgement, hplace, Place.inSection]) (by simp [Place.sends]) (by simp)
    · cases hs

theorem good_detach {p : DetachStep} (h : Good c s) (hplace : s.places a = .detach p)
    (hs : threadDetach s a p = some s') : Good c s' := by
  cases p with
  | lock =>
    simp only [threadDetach] at hs
    split at hs
    · cases hs
      have hput := h.put (a := a) (p := .detach .mark) (by rw [hplace]; rfl) (fun _ _ => rfl)
        (by simp [Place.sends]) (by simp)
      exact hput.lock (Or.inl (by rw [State.put_self]; rfl))
    · cases hs
  | mark =>
    simp only [threadDetach] at hs
    split at hs
    · cases hs
      exact h.put (by rw [hplace]; rfl) (fun _ _ => rfl) (by simp [Place.sends]) (by simp)
    · cases hs
      exact (h.change marks_detach rfl).put (by rw [State.change, hplace]; rfl) (fun _ _ => rfl)
        (fun hsends => Bool.or_eq_true_iff.mpr (Or.inr hsends)) (by simp)
  | refuse =>
    cases hs
    exact h.unlock.put (by rw [State.unlock, hplace]; rfl) (fun _ hmutex => by cases hmutex)
      (by simp [Place.sends]) (by simp)
  | unlock enqueue =>
    cases hs
    refine h.unlock.put ?_ (fun _ hmutex => by cases hmutex) (fun hsends => ?_) ?_
    · rw [State.unlock, hplace]
      split <;> rfl
    · have hq : (s.places a).sends = true → s.control.cleanupQueued = true := h.queued
      rw [hplace] at hq
      cases enqueue
      · cases hsends
      · exact hq rfl
    · split <;> simp
  | send =>
    cases hs
    have hq := h.queued (a := a) (by rw [hplace]; rfl)
    exact (h.send hq).put (by rw [State.send, hplace]; rfl) (by simp [State.send, hplace, Place.inSection])
      (by simp [Place.sends]) (by simp)

theorem good_call (h : Good c s)
    (hdecides : s.places a = .join .mark → s.control.detached = false ∧ s.control.cleanupQueued = false)
    (hs : call s a = some s') : Good c s' := by
  unfold call at hs
  split at hs
  · rename_i p hplace
    split at hs
    · cases hs
    · exact good_join h hplace (fun hp => hdecides (by rw [hplace, hp])) hs
  · rename_i p hplace
    split at hs
    · cases hs
    · exact good_detach h hplace hs
  · cases hs

theorem good_step (h : Good c s) {i : Action} (hdecides : Decides s i) (hs : step c s i = some s') :
    Good c s' := by
  cases i with
  | entry => exact good_entry h hs
  | returns => exact good_returns h hs
  | reap => exact good_reap h hs
  | join a => exact good_callJoin h hs
  | detach a => exact good_callDetach h hs
  | call a => exact good_call h hdecides hs
  | aborted a => exact good_aborted h hs
  | creates a created =>
    obtain rfl : created = true := hdecides
    exact good_creates h hs

theorem good_reached (h : Runs.Reached (step c) Decides s s') (hg : Good c s) : Good c s' :=
  h.invariant hg fun _ _ _ hg hc hs => good_step hg hc hs

theorem Good.unchanged (h : Good c s) : Unchanged c s := by
  refine ⟨fun hundecided => ?_, h.owner⟩
  obtain ⟨w, hwho, hcompletion⟩ := h.token
  have hnone : w = none := by
    cases w with
    | none => rfl
    | some b =>
      have := (hwho b).mpr rfl
      rw [hundecided b] at this
      cases this
  subst hnone
  rw [h.same]
  rw [Option.isSome_none, if_neg Bool.false_ne_true] at hcompletion
  rw [hcompletion]
  rfl

/-- The block is neither detached nor joined, and no call on it is beyond its wait. -/
structure Waits (s : State) : Prop where
  detached : s.control.detached = false
  queued : s.control.cleanupQueued = false
  places : ∀ a, (s.places a).waits = true

theorem Waits.free (hw : Waits s) (h : Good c s) (hphase : holds s.phase = false) :
    s.control.lifecycleMutex = none := by
  cases hmutex : s.control.lifecycleMutex with
  | none => rfl
  | some a =>
    exfalso
    have hplace := hw.places a
    rcases h.owner a hmutex with hin | ⟨-, hin⟩
    · unfold Place.waits at hplace
      split at hplace <;> simp_all [Place.inSection]
    · rw [hphase] at hin
      cases hin

/-- How far the thread is from its end. -/
def remaining : Phase → Nat
  | .absent | .registered | .start => 7
  | .body => 6
  | .lock => 5
  | .mark => 4
  | .unlock _ => 3
  | .put _ => 2
  | .send | .exit => 1
  | .completed => 0

theorem Waits.own_user (hw : Waits s) (h : Good c s) (hphase : s.phase = .body ∨ s.phase = .exit) :
    inUserCode c s (.thread c) = true := by
  have hplace := hw.places (.thread c)
  have hown := h.own
  cases hp : s.places (.thread c) with
  | user last => rcases hphase with hphase | hphase <;> simp [inUserCode, hp, hphase]
  | join p => exact absurd hp (hown p)
  | detach p =>
    rw [hp] at hplace
    cases hplace

theorem Waits.thread_step (hw : Waits s) (h : Good c s) (hphase : s.phase ≠ .completed) :
    ∃ i s', step c s i = some s' ∧ Decides s i ∧ Waits s' ∧ s'.places = s.places ∧
      remaining s'.phase < remaining s.phase := by
  have hin : holds s.phase = false → s.control.lifecycleMutex = none := hw.free h
  have hsends := (h.idle hw.queued).phase
  have huser := hw.own_user h
  cases hp : s.phase with
  | absent | registered =>
    have hbegun := h.started
    rw [hp] at hbegun
    cases hbegun
  | start =>
    refine ⟨.entry, { s with phase := .body }, ?_, trivial, ⟨hw.1, hw.2, hw.3⟩, rfl, by simp [remaining]⟩
    simp [step, threadEntry, hp]
  | body =>
    refine ⟨.returns, { s with phase := .lock }, ?_, trivial, ⟨hw.1, hw.2, hw.3⟩, rfl, by simp [remaining]⟩
    simp [step, returns, huser (Or.inl hp), hp]
  | lock =>
    refine ⟨.entry, { s.lock (.thread c) with phase := .mark }, ?_, trivial, ⟨hw.1, hw.2, hw.3⟩, rfl,
      by simp [remaining]⟩
    simp [step, threadEntry, hp, hin (by rw [hp]; rfl)]
  | mark =>
    have henqueues : s.control.finishEnqueues = false := by simp [ThreadControl.finishEnqueues, hw.detached]
    refine ⟨.entry, { s.change ThreadControl.finish with phase := .unlock false }, ?_, trivial,
      ⟨hw.1, ?_, hw.3⟩, rfl, by simp [remaining]⟩
    · simp [step, threadEntry, hp, henqueues]
    · exact Bool.or_eq_false_iff.mpr ⟨hw.2, henqueues⟩
  | unlock enqueue =>
    refine ⟨.entry, { s.unlock with phase := .put enqueue }, ?_, trivial, ⟨hw.1, hw.2, hw.3⟩, rfl,
      by simp [remaining]⟩
    simp [step, threadEntry, hp]
  | put enqueue =>
    obtain rfl : enqueue = false := by rwa [hp, sends_put] at hsends
    refine ⟨.entry, { s.change ThreadControl.putCompletion with phase := .exit }, ?_, trivial, ⟨hw.1, hw.2, hw.3⟩,
      rfl, by simp [remaining]⟩
    simp [step, threadEntry, hp]
  | send =>
    rw [hp] at hsends
    cases hsends
  | exit =>
    refine ⟨.returns, { s with phase := .completed }, ?_, trivial, ⟨hw.1, hw.2, hw.3⟩, rfl, by simp [remaining]⟩
    simp [step, returns, huser (Or.inr hp), hp]
  | completed => exact absurd hp hphase

theorem Waits.thread_completes (hw : Waits s) (h : Good c s) :
    ∃ s', Runs.Reached (step c) Decides s s' ∧ Waits s' ∧ s'.places = s.places ∧
      s'.phase = .completed := by
  induction hn : remaining s.phase using Nat.strongRecOn generalizing s with
  | _ n ih =>
    by_cases hphase : s.phase = .completed
    · exact ⟨s, .start, hw, rfl, hphase⟩
    · obtain ⟨i, s₁, hs, hdecides, hw₁, hplaces, hless⟩ := hw.thread_step h hphase
      obtain ⟨s', hreached, hw', hplaces', hcompleted⟩ :=
        ih _ (hn ▸ hless) hw₁ (good_step h hdecides hs) rfl
      exact ⟨s', (Runs.Reached.start.next hdecides hs).trans hreached, hw',
        hplaces'.trans hplaces, hcompleted⟩

theorem Waits.completion (hw : Waits s) (h : Good c s) (hphase : s.phase = .completed) :
    s.control.completion = 1 := by
  have hundecided : ∀ a, (s.places a).undecided = false := by
    intro a
    have hplace := hw.places a
    unfold Place.waits at hplace
    split at hplace <;> simp_all [Place.undecided]
  have hack : s.control.cleanupAck.isSome = false := by
    rw [Bool.eq_false_iff]
    intro hack
    have hq := h.ack hack
    rw [hw.queued] at hq
    cases hq
  have hcount := h.count
  rw [hphase, hack, if_neg Bool.false_ne_true, ← h.unchanged.1 hundecided] at hcount
  exact hcount

/-- What a join and the reaper do once the thread has completed. -/
def joining (b : Agent) : List Action :=
  [.call b, .creates b true, .call b, .call b, .call b, .call b, .reap, .reap, .reap, .reap, .call b]

theorem Waits.join_succeeds (hw : Waits s) (h : Good c s) {b : Agent} (hb : s.places b = .join .wait)
    (hphase : s.phase = .completed) : ∃ s', Runs.perform (step c) s (joining b) = some s' ∧
      s'.places b = .user (some .joined) := by
  obtain ⟨hmessages, hreaper, hdeleted, -, -⟩ := h.idle hw.queued
  have hmutex := hw.free h (by rw [hphase]; rfl)
  have hcompletion := hw.completion h hphase
  simp [joining, Runs.perform, step, call, threadJoin, joinCreates, reaperEntry, State.put,
    State.change, State.lock, State.unlock, State.send, State.setAcknowledgement,
    ThreadControl.takeCompletion, ThreadControl.lock, ThreadControl.unlock, ThreadControl.isClaimed,
    ThreadControl.join,
    hmessages, hreaper, hdeleted, hmutex, hcompletion, hb, hphase, hw.detached, hw.queued]

theorem Good.rejoinable (h : Good c s) : Rejoinable c s := by
  intro hdetached hqueued hplaces b hb huser
  have hidle := h.idle hqueued
  have hs : step c s (.join b) = some (s.put b (.join .wait)) := by
    simp [step, callJoin, huser, hidle.deleted, hb]
  refine ⟨_, hs, ?_⟩
  have hw : Waits (s.put b (.join .wait)) := by
    refine ⟨hdetached, hqueued, fun a => ?_⟩
    by_cases ha : a = b
    · subst ha
      rw [State.put_self]
      rfl
    · rw [State.put_other s ha]
      exact hplaces a
  have hg := good_step h (i := .join b) trivial hs
  obtain ⟨s₁, hreached, hw₁, hplaces₁, hphase⟩ := hw.thread_completes hg
  have hwait : s₁.places b = .join .wait := by rw [hplaces₁, State.put_self]
  obtain ⟨s', hperform, hjoined⟩ := hw₁.join_succeeds (good_reached hreached hg) hwait hphase
  have hall : Runs.Reached (step c) (fun _ _ => True) (s.put b (.join .wait)) s₁ :=
    hreached.weaken fun _ _ _ => trivial
  exact ⟨s', hall.trans (Runs.reached_of_perform hperform (Runs.performs_always (fun _ _ => trivial) _)),
    hjoined⟩

end

theorem failed_join_keeps (c : ControlId) {s : State} (h : Runs.Reached (step c) Decides initial s) :
    Unchanged c s ∧ Rejoinable c s :=
  have hg := good_reached h good_initial
  ⟨hg.unchanged, hg.rejoinable⟩

instance (s : State) : (i : Action) → Decidable (Decides s i)
  | .creates _ created => inferInstanceAs (Decidable (created = true))
  | .call a => inferInstanceAs (Decidable (s.places a = .join .mark → _ ∧ _))
  | .entry | .returns | .reap | .join _ | .detach _ | .aborted _ => isTrue trivial

/-- The thread is running, its join of itself and an aborted join have failed. -/
def failedTwice : List Action :=
  [.entry, .join (.thread 0), .join (.other 0), .aborted (.other 0)]

theorem failed_join_keeps_failedTwice : ∃ s, Runs.perform (step 0) initial failedTwice = some s ∧
    s.places (.thread 0) = .user (some .deadlock) ∧ s.places (.other 0) = .user (some .invalid) ∧
    Unchanged 0 s ∧ Rejoinable 0 s :=
  have hdecides : Runs.Performs (step 0) Decides initial failedTwice := by decide
  ⟨_, rfl, rfl, rfl, failed_join_keeps 0 (Runs.reached_of_perform rfl hdecides)⟩

section
variable {c : ControlId} {s s' : State} {a : Agent}

/-- The caller's join has the token or has succeeded. -/
def Place.gets : Place → Bool
  | .join .wait | .join .refuse => false
  | .join _ | .user (some .joined) => true
  | _ => false

/-- No join has the token or will ever have it. -/
structure Lost (s : State) : Prop where
  completion : s.control.completion = 0
  ended : posted s.phase = true
  places : ∀ a, (s.places a).gets = false

theorem Lost.put (h : Lost s) {p : Place} (hp : p.gets = false) : Lost (s.put a p) := by
  refine ⟨h.completion, h.ended, fun b => ?_⟩
  by_cases hb : b = a
  · subst hb
    rwa [State.put_self]
  · rw [State.put_other s hb]
    exact h.places b

theorem Lost.join (h : Lost s) {p : JoinPlace} (hplace : s.places a = .join p)
    (hs : threadJoin s a p = some s') : Lost s' := by
  have hgets := h.places a
  rw [hplace] at hgets
  cases p with
  | wait => simp [threadJoin, h.completion] at hs
  | refuse =>
    cases hs
    have hunlock : Lost s.unlock := ⟨h.completion, h.ended, h.places⟩
    exact hunlock.put rfl
  | create | lock | mark | unlock | send | acknowledge => cases hgets

theorem Lost.detach (h : Lost s) {p : DetachStep} (hs : threadDetach s a p = some s') : Lost s' := by
  have hlock : Lost (s.lock a) := ⟨h.completion, h.ended, h.places⟩
  have hunlock : Lost s.unlock := ⟨h.completion, h.ended, h.places⟩
  cases p with
  | lock =>
    simp only [threadDetach] at hs
    split at hs
    · cases hs
      exact hlock.put rfl
    · cases hs
  | mark =>
    simp only [threadDetach] at hs
    split at hs
    · cases hs
      exact h.put rfl
    · cases hs
      have hchange : Lost (s.change ThreadControl.detach) := ⟨h.completion, h.ended, h.places⟩
      exact hchange.put rfl
  | refuse =>
    cases hs
    exact hunlock.put rfl
  | unlock enqueue =>
    cases hs
    exact hunlock.put (by split <;> rfl)
  | send =>
    cases hs
    have hsend : Lost s.send := ⟨h.completion, h.ended, h.places⟩
    exact hsend.put rfl

theorem Lost.step (h : Lost s) {i : Action} (hs : step c s i = some s') : Lost s' := by
  obtain ⟨hcompletion, hended, hplaces⟩ := h
  have h : Lost s := ⟨hcompletion, hended, hplaces⟩
  cases i with
  | entry =>
    simp only [FailedJoins.step, threadEntry] at hs
    split at hs <;> simp_all [posted]
    rw [← hs]
    exact ⟨hcompletion, rfl, hplaces⟩
  | returns =>
    simp only [FailedJoins.step, returns] at hs
    split at hs
    · split at hs <;> simp_all [posted]
      rw [← hs]
      exact ⟨hcompletion, rfl, hplaces⟩
    · cases hs
  | reap =>
    simp only [FailedJoins.step, reaperEntry] at hs
    split at hs
    all_goals (try split at hs)
    all_goals cases hs
    all_goals exact ⟨hcompletion, hended, hplaces⟩
  | join a =>
    simp only [FailedJoins.step, callJoin] at hs
    split at hs
    · cases hs
      exact h.put (by split <;> rfl)
    · cases hs
  | detach a =>
    simp only [FailedJoins.step, callDetach] at hs
    split at hs
    · cases hs
      exact h.put rfl
    · cases hs
  | call a =>
    simp only [FailedJoins.step, call] at hs
    split at hs
    · rename_i p hplace
      split at hs
      · cases hs
      · exact h.join hplace hs
    · split at hs
      · cases hs
      · exact h.detach hs
    · cases hs
  | aborted a =>
    simp only [FailedJoins.step, joinAborted] at hs
    split at hs
    · cases hs
      exact h.put rfl
    · cases hs
  | creates a created =>
    simp only [FailedJoins.step, joinCreates] at hs
    split at hs
    · rename_i hplace
      have hgets := hplaces a
      rw [hplace] at hgets
      cases hgets
    · cases hs

end

/-- The thread has completed, a join takes the token and gets no semaphore. -/
def refusedSemaphore : List Action :=
  [.entry, .returns, .entry, .entry, .entry, .entry, .returns, .join (.other 0), .call (.other 0),
    .creates (.other 0) false]

/-- Every later join waits for ever. -/
theorem failed_join_loses : ¬ ∀ c s, Runs.Reached (step c) (fun _ _ => True) initial s →
    Unchanged c s ∧ Rejoinable c s := by
  intro hall
  obtain ⟨s, hperform, hcompletion, hended, hdetached, hqueued, hplaces⟩ :
      ∃ s, Runs.perform (step 0) initial refusedSemaphore = some s ∧ s.control.completion = 0 ∧
        posted s.phase = true ∧ s.control.detached = false ∧ s.control.cleanupQueued = false ∧
        ∀ a, s.places a = .user none ∨ s.places a = .user (some .again) := by
    refine ⟨_, rfl, rfl, rfl, rfl, rfl, fun a => ?_⟩
    by_cases ha : a = .other 0
    · subst ha
      exact Or.inr rfl
    · left
      simp [State.put, State.change, State.lock, State.unlock, initial, Function.update_of_ne ha]
  have hreached := Runs.reached_of_perform hperform (Runs.performs_always (fun _ _ => trivial) _)
  have hlost : Lost s := by
    refine ⟨hcompletion, hended, fun a => ?_⟩
    rcases hplaces a with hplace | hplace <;> rw [hplace] <;> rfl
  have hrejoin := (hall 0 s hreached).2 hdetached hqueued (fun a => ?_) (.other 1) (by simp) ?_
  · obtain ⟨s₁, hs, s', hreached', hjoined⟩ := hrejoin
    have hnever := hreached'.invariant (P := Lost) (hlost.step hs) fun _ _ _ h _ hs => h.step hs
    have hgets := hnever.places (.other 1)
    rw [hjoined] at hgets
    cases hgets
  · rcases hplaces a with hplace | hplace <;> rw [hplace] <;> rfl
  · rcases hplaces (.other 1) with hplace | hplace <;> simp [inUserCode, hplace]

end SimPLCity.FailedJoins
