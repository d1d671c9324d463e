import SimPLCity.Runs

/-! The exit of a thread and its `thread_local` destructors. The list of destructors is drained
first, then the destructors of the thread-specific keys run; both run code of the program, which may
register more. What is on the list when the thread is deleted is discarded. -/

namespace SimPLCity.ThreadExit

/-- A registration. The serial number tells them apart, for the proofs only. -/
structure ThreadLocalDestructor where
  serial : Nat
  function : Nat
  object : Nat
deriving DecidableEq, Repr

/-- Where the thread is. Program code runs in `body`, `destructor` and `keyDestructor`. -/
inductive Place
  | body
  | draining
  | destructor
  | keys
  | keyDestructor
  | finished
  | deleted
deriving DecidableEq, Repr

/-- `registered` and `called` are for the proofs only. -/
structure Thread where
  place : Place := .body
  destructors : List ThreadLocalDestructor := []
  cleanupStarted : Bool := false
  registered : List ThreadLocalDestructor := []
  called : List ThreadLocalDestructor := []
deriving DecidableEq, Repr

/-- What was registered before the scheduler, in that order. -/
def startup (functions : List (Nat × Nat)) : List ThreadLocalDestructor :=
  functions.zipIdx.map fun ((function, object), serial) => ⟨serial, function, object⟩

/-- A thread that has adopted these registrations. -/
def initial (functions : List (Nat × Nat)) : Thread :=
  { destructors := (startup functions).reverse, registered := startup functions }

/-- The thread runs code of the program. -/
def Place.runs : Place → Bool
  | .body | .destructor | .keyDestructor => true
  | _ => false

/-- `__cxa_thread_atexit`, which needs an element and a function. -/
def cxaThreadAtexit (s : Thread) (function : Option Nat) (object : Nat) (allocated : Bool) : Thread :=
  match function, allocated with
  | some function, true =>
    let element : ThreadLocalDestructor := ⟨s.registered.length, function, object⟩
    { s with
      destructors := element :: s.destructors
      registered := s.registered ++ [element] }
  | _, _ => s

/-- `cleanup_thread_runtime` begins, unless it has begun before. -/
def cleanupThreadRuntime (s : Thread) : Thread :=
  if s.cleanupStarted then { s with place := .finished }
  else { s with place := .draining, cleanupStarted := true }

inductive Action
  | atexit (function : Option Nat) (object : Nat) (allocated : Bool)
  | entryReturns
  | terminate
  | next
  | leave
  | key
  | keysDone
  | delete
deriving DecidableEq, Repr

/-- Which keys have destructors to call, and how often, is left open here. -/
def step (s : Thread) : Action → Option Thread
  | .atexit function object allocated =>
    if s.place.runs then some (cxaThreadAtexit s function object allocated) else none
  | .entryReturns => if s.place = .body then some (cleanupThreadRuntime s) else none
  | .terminate => if s.place.runs then some (cleanupThreadRuntime s) else none
  | .next =>
    if s.place = .draining then
      match s.destructors with
      | current :: rest =>
        some { s with place := .destructor, destructors := rest, called := s.called ++ [current] }
      | [] => some { s with place := .keys }
    else none
  | .leave =>
    match s.place with
    | .destructor => some { s with place := .draining }
    | .keyDestructor => some { s with place := .keys }
    | _ => none
  | .key => if s.place = .keys then some { s with place := .keyDestructor } else none
  | .keysDone => if s.place = .keys then some { s with place := .finished } else none
  | .delete =>
    if s.place = .finished then some { s with place := .deleted, destructors := [] } else none

/-- The condition: a destructor of a key registers none, and a destructor of the list terminates the
thread only if none is left. -/
def KeepsList (s : Thread) : Action → Prop
  | .atexit function _ allocated => s.place = .keyDestructor → function = none ∨ allocated = false
  | .terminate => s.place = .destructor → s.destructors = []
  | _ => True

instance (s : Thread) : (a : Action) → Decidable (KeepsList s a)
  | .atexit function _ allocated =>
    inferInstanceAs (Decidable (s.place = .keyDestructor → function = none ∨ allocated = false))
  | .terminate => inferInstanceAs (Decidable (s.place = .destructor → s.destructors = []))
  | .entryReturns | .next | .leave | .key | .keysDone | .delete => isTrue trivial

/-- The list has been drained. -/
def Place.drained : Place → Bool
  | .keys | .keyDestructor | .finished | .deleted => true
  | _ => false

structure Inv (s : Thread) : Prop where
  numbered : s.registered.map ThreadLocalDestructor.serial = List.range s.registered.length
  accounted : (s.called ++ s.destructors).Perm s.registered
  sorted : s.destructors.Pairwise fun d d' => d'.serial < d.serial
  drained : s.place.drained → s.destructors = []
  started : s.cleanupStarted = false ↔ s.place = .body

theorem inv_initial (functions : List (Nat × Nat)) : Inv (initial functions) := by
  have hnumbered : (startup functions).map ThreadLocalDestructor.serial =
      List.range (startup functions).length := by
    rw [startup, List.map_map, List.length_map, List.length_zipIdx, List.range_eq_range']
    exact List.zipIdx_map_snd 0 functions
  refine ⟨hnumbered, List.reverse_perm _, ?_, nofun, by simp [initial]⟩
  have hsorted : ((startup functions).map ThreadLocalDestructor.serial).Pairwise (· < ·) := by
    rw [hnumbered]
    exact List.pairwise_lt_range
  exact List.pairwise_reverse.mpr (List.pairwise_map.mp hsorted)

section
variable {s s' : Thread}

theorem Inv.serial_lt (h : Inv s) {d : ThreadLocalDestructor} (hd : d ∈ s.registered) :
    d.serial < s.registered.length := by
  have hmem := List.mem_map_of_mem (f := ThreadLocalDestructor.serial) hd
  rw [h.numbered] at hmem
  exact List.mem_range.mp hmem

theorem Inv.nodup (h : Inv s) : s.registered.Nodup := by
  have hserials : (s.registered.map ThreadLocalDestructor.serial).Nodup := by
    rw [h.numbered]
    exact List.nodup_range
  exact List.Pairwise.of_map _ (fun _ _ hne heq => hne (congrArg _ heq)) hserials

theorem inv_atexit (h : Inv s) {function : Option Nat} {object : Nat} {allocated : Bool}
    (hkeep : s.place.drained → function = none ∨ allocated = false) :
    Inv (cxaThreadAtexit s function object allocated) := by
  unfold cxaThreadAtexit
  split
  · rename_i function
    have hnot : ¬ s.place.drained := fun hd => by simpa using hkeep hd
    refine ⟨?_, ?_, List.pairwise_cons.mpr ⟨fun d hd => ?_, h.sorted⟩, fun hd => absurd hd hnot,
      h.started⟩
    · simp [h.numbered, List.range_succ]
    · exact List.perm_middle.trans ((h.accounted.cons _).trans (List.perm_append_singleton ..).symm)
    · exact h.serial_lt (h.accounted.mem_iff.mp (List.mem_append_right _ hd))
  · exact h

theorem inv_cleanup (h : Inv s) (hempty : s.cleanupStarted = true → s.destructors = []) :
    Inv (cleanupThreadRuntime s) := by
  unfold cleanupThreadRuntime
  split
  · exact ⟨h.numbered, h.accounted, h.sorted, fun _ => hempty ‹_›, by simp_all⟩
  · exact ⟨h.numbered, h.accounted, h.sorted, by simp [Place.drained], by simp⟩

theorem inv_move (h : Inv s) {place : Place} (hbody : s.place ≠ .body) (hbody' : place ≠ .body)
    (hdrained : place.drained → s.destructors = []) : Inv { s with place := place } := by
  refine ⟨h.numbered, h.accounted, h.sorted, hdrained, ?_⟩
  have hstarted := h.started
  simp only [hbody, hbody', iff_false] at hstarted ⊢
  exact hstarted

theorem inv_step (h : Inv s) {a : Action} (hc : KeepsList s a) (hs : step s a = some s') :
    Inv s' := by
  cases a with
  | atexit function object allocated =>
    simp only [step, Option.ite_none_right_eq_some, Option.some.injEq] at hs
    obtain ⟨hruns, rfl⟩ := hs
    refine inv_atexit h fun hd => hc ?_
    cases hp : s.place <;> simp_all [Place.runs, Place.drained]
  | entryReturns =>
    simp only [step, Option.ite_none_right_eq_some, Option.some.injEq] at hs
    obtain ⟨hbody, rfl⟩ := hs
    refine inv_cleanup h fun hstarted => ?_
    rw [h.started.mpr hbody] at hstarted
    cases hstarted
  | terminate =>
    simp only [step, Option.ite_none_right_eq_some, Option.some.injEq] at hs
    obtain ⟨hruns, rfl⟩ := hs
    refine inv_cleanup h fun hstarted => ?_
    cases hp : s.place with
    | body =>
      rw [h.started.mpr hp] at hstarted
      cases hstarted
    | destructor => exact hc hp
    | keyDestructor => exact h.drained (by rw [hp]; rfl)
    | draining | keys | finished | deleted =>
      rw [hp] at hruns
      cases hruns
  | next =>
    simp only [step, Option.ite_none_right_eq_some] at hs
    obtain ⟨hp, hs⟩ := hs
    split at hs
    · rename_i current rest hlist
      cases hs
      have haccounted := h.accounted
      have hsorted := h.sorted
      rw [hlist] at haccounted hsorted
      refine ⟨h.numbered, ?_, hsorted.tail, by simp [Place.drained], ?_⟩
      · simpa using haccounted
      · have := h.started
        simp [hp] at this
        simp [this]
    · rename_i hlist
      cases hs
      exact inv_move h (by simp [hp]) (by simp) fun _ => hlist
  | leave =>
    simp only [step] at hs
    split at hs
    · cases hs
      exact inv_move h (by simp_all) (by simp) (by simp [Place.drained])
    · cases hs
      exact inv_move h (by simp_all) (by simp) fun _ => h.drained (by simp_all [Place.drained])
    · cases hs
  | key =>
    simp only [step, Option.ite_none_right_eq_some, Option.some.injEq] at hs
    obtain ⟨hp, rfl⟩ := hs
    exact inv_move h (by simp [hp]) (by simp) fun _ => h.drained (by rw [hp]; rfl)
  | keysDone =>
    simp only [step, Option.ite_none_right_eq_some, Option.some.injEq] at hs
    obtain ⟨hp, rfl⟩ := hs
    exact inv_move h (by simp [hp]) (by simp) fun _ => h.drained (by rw [hp]; rfl)
  | delete =>
    simp only [step, Option.ite_none_right_eq_some, Option.some.injEq] at hs
    obtain ⟨hp, rfl⟩ := hs
    have hempty : s.destructors = [] := h.drained (by rw [hp]; rfl)
    have hmoved : Inv { s with place := .deleted } :=
      inv_move h (by simp [hp]) (by simp) fun _ => hempty
    rwa [← hempty]

end

theorem destructors_called_once {functions : List (Nat × Nat)} {s : Thread}
    (h : Runs.Reached step KeepsList (initial functions) s) :
    (s.place = .finished ∨ s.place = .deleted → s.called.Perm s.registered) ∧
      s.registered.Nodup ∧ s.called.Nodup ∧
      ∀ s' d, step s .next = some s' → s'.called = s.called ++ [d] → d ∈ s.registered ∧ d ∉ s.called ∧
        ∀ d' ∈ s.registered, d' ∉ s.called → d'.serial ≤ d.serial := by
  have hinv : Inv s := h.invariant (inv_initial functions) fun _ _ _ hi hc hs => inv_step hi hc hs
  have hnodup : (s.called ++ s.destructors).Nodup := hinv.accounted.nodup_iff.mpr hinv.nodup
  refine ⟨fun hover => ?_, hinv.nodup, (List.nodup_append.mp hnodup).1, fun s' d hs hcalled => ?_⟩
  · have hempty : s.destructors = [] := hinv.drained (by rcases hover with hp | hp <;> rw [hp] <;> rfl)
    have haccounted := hinv.accounted
    rwa [hempty, List.append_nil] at haccounted
  · simp only [step, Option.ite_none_right_eq_some] at hs
    obtain ⟨hp, hs⟩ := hs
    split at hs
    · rename_i current rest hlist
      cases hs
      obtain rfl : current = d := by simpa using hcalled
      rw [hlist] at hnodup
      have haccounted := hinv.accounted
      have hsorted := hinv.sorted
      rw [hlist] at haccounted hsorted
      refine ⟨haccounted.mem_iff.mp (by simp), fun hmem => ?_, fun d' hd' hnot => ?_⟩
      · exact (List.nodup_append.mp hnodup).2.2 current hmem current (by simp) rfl
      · have hpending := (List.mem_append.mp (haccounted.mem_iff.mpr hd')).resolve_left hnot
        rcases List.mem_cons.mp hpending with rfl | hrest
        · exact Nat.le_refl _
        · exact Nat.le_of_lt ((List.pairwise_cons.mp hsorted).1 d' hrest)
    · cases hs
      simp at hcalled

/-- A destructor registers another one, and a key has a destructor too. -/
def nested : List Action :=
  [.atexit (some 5) 50 true, .entryReturns, .next, .atexit (some 6) 60 true, .leave, .next, .leave,
    .next, .leave, .next, .key, .leave, .keysDone, .delete]

theorem destructors_called_once_nested :
    ∃ s, Runs.perform step (initial [(4, 40)]) nested = some s ∧
      s.called = [⟨1, 5, 50⟩, ⟨2, 6, 60⟩, ⟨0, 4, 40⟩] ∧ s.called.Perm s.registered := by
  obtain ⟨s, hs⟩ := Option.isSome_iff_exists.mp
    (show (Runs.perform step (initial [(4, 40)]) nested).isSome by decide +kernel)
  have hcalled : (Runs.perform step (initial [(4, 40)]) nested).map (fun s => s.called) =
      some [⟨1, 5, 50⟩, ⟨2, 6, 60⟩, ⟨0, 4, 40⟩] := by decide +kernel
  have hplace : (Runs.perform step (initial [(4, 40)]) nested).map (fun s => s.place) =
      some .deleted := by decide +kernel
  rw [hs, Option.map_some, Option.some.injEq] at hcalled hplace
  exact ⟨s, hs, hcalled, (destructors_called_once (Runs.reached_of_perform hs
    (by decide +kernel))).1 (Or.inr hplace)⟩

/-- What the destructor of a key registers is never called. -/
theorem destructor_discarded : ¬ ∀ functions s,
    Runs.Reached step (fun _ _ => True) (initial functions) s → s.place = .deleted →
      s.called.Perm s.registered := by
  intro hall
  have hs : Runs.perform step (initial [])
      [.entryReturns, .next, .key, .atexit (some 5) 50 true, .leave, .keysDone, .delete] =
    some { place := .deleted, cleanupStarted := true, registered := [⟨0, 5, 50⟩] } := by decide +kernel
  have hperm := hall [] _
    (Runs.reached_of_perform hs (Runs.performs_always (fun _ _ => trivial) _)) rfl
  exact absurd hperm.length_eq (by decide)

end SimPLCity.ThreadExit
