import SimPLCity.Runs
import Mathlib.Logic.Function.Basic

/-! The published system time. Any number of threads compute candidates and publish them through
one atomic variable; each load and each exchange is a step. -/

namespace SimPLCity.SystemTime

abbrev ThreadId := Nat

/-- Where a call of `publish_system_time` is; `started` is when `system_time_nanoseconds` was
called. -/
inductive Call
  | idle
  | load (started : Nat) (candidate : Int)
  | exchange (started : Nat) (candidate previous : Int)
  | returning (started : Nat) (candidate value : Int)
deriving DecidableEq, Repr

/-- A call that has returned. -/
structure Finished where
  started : Nat
  ended : Nat
  candidate : Int
  value : Int
deriving DecidableEq, Repr

/-- `now`, `finished` and `candidates` are for the proofs only. -/
structure Clock where
  lastSystemTimeNanoseconds : Int := 0
  call : ThreadId → Call := fun _ => .idle
  now : Nat := 0
  finished : List Finished := []
  candidates : List Int := []

def initial : Clock := {}

/-- `compare_exchange_weak` may fail without a reason. -/
inductive Action
  | start (t : ThreadId) (candidate : Int)
  | load (t : ThreadId)
  | exchange (t : ThreadId) (spurious : Bool)
  | finish (t : ThreadId)
deriving DecidableEq, Repr

def Clock.go (s : Clock) (t : ThreadId) (call : Call) : Clock :=
  { s with call := Function.update s.call t call, now := s.now + 1 }

def step (s : Clock) : Action → Option Clock
  | .start t candidate =>
    match s.call t with
    | .idle =>
      some { s.go t (.load s.now candidate) with candidates := candidate :: s.candidates }
    | _ => none
  | .load t =>
    match s.call t with
    | .load started candidate =>
      some (s.go t (.exchange started candidate s.lastSystemTimeNanoseconds))
    | _ => none
  | .exchange t spurious =>
    match s.call t with
    | .exchange started candidate previous =>
      if candidate > previous then
        if s.lastSystemTimeNanoseconds = previous ∧ spurious = false then
          some { s.go t (.returning started candidate candidate) with
            lastSystemTimeNanoseconds := candidate }
        else some (s.go t (.exchange started candidate s.lastSystemTimeNanoseconds))
      else some (s.go t (.returning started candidate previous))
    | _ => none
  | .finish t =>
    match s.call t with
    | .returning started candidate value =>
      some { s.go t .idle with finished := ⟨started, s.now, candidate, value⟩ :: s.finished }
    | _ => none

/-- The value is not before what has returned by then. -/
def NotBefore (s : Clock) (started : Nat) (value : Int) : Prop :=
  ∀ f ∈ s.finished, f.ended ≤ started → f.value ≤ value

/-- The value is of a call, or the first. -/
def Published (s : Clock) (value : Int) : Prop := value = 0 ∨ value ∈ s.candidates

/-- What holds of a call in progress. -/
def InProgress (s : Clock) : Call → Prop
  | .idle => True
  | .load started candidate => started < s.now ∧ candidate ∈ s.candidates
  | .exchange started candidate previous => started < s.now ∧ candidate ∈ s.candidates ∧
      previous ≤ s.lastSystemTimeNanoseconds ∧ Published s previous ∧ NotBefore s started previous
  | .returning started candidate value => started < s.now ∧ candidate ≤ value ∧
      value ≤ s.lastSystemTimeNanoseconds ∧ Published s value ∧ NotBefore s started value

structure Inv (s : Clock) : Prop where
  call : ∀ t, InProgress s (s.call t)
  last : Published s s.lastSystemTimeNanoseconds
  returned : ∀ f ∈ s.finished, f.started < f.ended ∧ f.ended < s.now ∧
    f.value ≤ s.lastSystemTimeNanoseconds
  value : ∀ f ∈ s.finished, f.candidate ≤ f.value ∧ Published s f.value
  order : ∀ f ∈ s.finished, ∀ g ∈ s.finished, f.ended ≤ g.started → f.value ≤ g.value

theorem inv_initial : Inv initial where
  call := fun _ => trivial
  last := Or.inl rfl
  returned := nofun
  value := nofun
  order := nofun

/-- What a step does for the calls of the other threads. -/
structure Later (s s' : Clock) : Prop where
  now : s.now ≤ s'.now
  last : s.lastSystemTimeNanoseconds ≤ s'.lastSystemTimeNanoseconds
  candidates : ∀ c ∈ s.candidates, c ∈ s'.candidates
  finished : ∀ f ∈ s'.finished, f ∈ s.finished ∨ s.now ≤ f.ended

section
variable {s s' : Clock} {value : Int}

theorem Published.later (h : Published s value) (hl : Later s s') : Published s' value :=
  h.imp_right (hl.candidates value)

theorem NotBefore.later {started : Nat} (h : NotBefore s started value) (hl : Later s s')
    (hnow : started < s.now) : NotBefore s' started value := by
  intro f hf hended
  rcases hl.finished f hf with hf | hf
  · exact h f hf hended
  · omega

theorem InProgress.later {call : Call} (h : InProgress s call) (hl : Later s s') :
    InProgress s' call := by
  cases call with
  | idle => trivial
  | load started candidate => exact ⟨Nat.lt_of_lt_of_le h.1 hl.now, hl.candidates _ h.2⟩
  | exchange started candidate previous =>
    obtain ⟨hnow, hcandidate, hle, hpublished, hbefore⟩ := h
    exact ⟨Nat.lt_of_lt_of_le hnow hl.now, hl.candidates _ hcandidate, Int.le_trans hle hl.last,
      hpublished.later hl, hbefore.later hl hnow⟩
  | returning started candidate value =>
    obtain ⟨hnow, hcandidate, hle, hpublished, hbefore⟩ := h
    exact ⟨Nat.lt_of_lt_of_le hnow hl.now, hcandidate, Int.le_trans hle hl.last,
      hpublished.later hl, hbefore.later hl hnow⟩

theorem inv_go (h : Inv s) {t : ThreadId} {call : Call} (hl : Later s s')
    (hcall : s'.call = Function.update s.call t call) (hprogress : InProgress s' call)
    (hfinished : s'.finished = s.finished) (hlast : Published s' s'.lastSystemTimeNanoseconds) :
    Inv s' := by
  refine ⟨fun u => ?_, hlast, fun f hf => ?_, fun f hf => ?_, ?_⟩
  · rw [hcall]
    by_cases hu : u = t
    · rw [hu, Function.update_self]
      exact hprogress
    · rw [Function.update_of_ne hu]
      exact (h.call u).later hl
  · rw [hfinished] at hf
    have hf := h.returned f hf
    exact ⟨hf.1, Nat.lt_of_lt_of_le hf.2.1 hl.now, Int.le_trans hf.2.2 hl.last⟩
  · rw [hfinished] at hf
    exact ⟨(h.value f hf).1, (h.value f hf).2.later hl⟩
  · rw [hfinished]
    exact h.order

theorem Inv.notBefore_last (h : Inv s) (started : Nat) :
    NotBefore s started s.lastSystemTimeNanoseconds := fun f hf _ => (h.returned f hf).2.2

theorem inv_step (h : Inv s) {a : Action} (hs : step s a = some s') : Inv s' := by
  cases a with
  | start t candidate =>
    simp only [step] at hs
    split at hs
    · cases hs
      have hl : Later s { s.go t (.load s.now candidate) with
          candidates := candidate :: s.candidates } :=
        ⟨Nat.le_succ _, Int.le_refl _, fun c hc => List.mem_cons_of_mem _ hc, fun f hf => Or.inl hf⟩
      exact inv_go h hl rfl ⟨Nat.lt_succ_self _, List.mem_cons_self⟩ rfl (h.last.later hl)
    · cases hs
  | load t =>
    simp only [step] at hs
    split at hs
    · rename_i started candidate hcall
      cases hs
      have hcurrent := h.call t
      rw [hcall] at hcurrent
      have hl : Later s (s.go t (.exchange started candidate s.lastSystemTimeNanoseconds)) :=
        ⟨Nat.le_succ _, Int.le_refl _, fun _ hc => hc, fun _ hf => Or.inl hf⟩
      exact inv_go h hl rfl ⟨Nat.lt_succ_of_lt hcurrent.1, hcurrent.2, Int.le_refl _, h.last.later hl,
        (h.notBefore_last started).later hl hcurrent.1⟩ rfl (h.last.later hl)
    · cases hs
  | exchange t spurious =>
    simp only [step] at hs
    split at hs
    · rename_i started candidate previous hcall
      have hcurrent := h.call t
      rw [hcall] at hcurrent
      obtain ⟨hnow, hcandidate, hle, hpublished, hbefore⟩ := hcurrent
      split at hs
      · rename_i hgreater
        split at hs
        · -- the exchange succeeds, so that the candidate is after all that has returned
          rename_i hsame
          cases hs
          have hl : Later s { s.go t (.returning started candidate candidate) with
              lastSystemTimeNanoseconds := candidate } :=
            ⟨Nat.le_succ _, Int.le_of_lt (hsame.1 ▸ hgreater), fun _ hc => hc, fun _ hf => Or.inl hf⟩
          have hafter : NotBefore s started candidate :=
            fun f hf hended => Int.le_trans (hbefore f hf hended) (Int.le_of_lt hgreater)
          exact inv_go h hl rfl ⟨Nat.lt_succ_of_lt hnow, Int.le_refl _, Int.le_refl _,
            Or.inr hcandidate, hafter.later hl hnow⟩ rfl (Or.inr hcandidate)
        · -- the exchange fails and has loaded the variable
          cases hs
          have hl : Later s (s.go t (.exchange started candidate s.lastSystemTimeNanoseconds)) :=
            ⟨Nat.le_succ _, Int.le_refl _, fun _ hc => hc, fun _ hf => Or.inl hf⟩
          exact inv_go h hl rfl ⟨Nat.lt_succ_of_lt hnow, hcandidate, Int.le_refl _, h.last.later hl,
            (h.notBefore_last started).later hl hnow⟩ rfl (h.last.later hl)
      · rename_i hnot
        cases hs
        have hl : Later s (s.go t (.returning started candidate previous)) :=
          ⟨Nat.le_succ _, Int.le_refl _, fun _ hc => hc, fun _ hf => Or.inl hf⟩
        exact inv_go h hl rfl ⟨Nat.lt_succ_of_lt hnow, Int.not_lt.mp hnot, hle, hpublished.later hl,
          hbefore.later hl hnow⟩ rfl (h.last.later hl)
    · cases hs
  | finish t =>
    simp only [step] at hs
    split at hs
    · rename_i started candidate value hcall
      cases hs
      have hcurrent := h.call t
      rw [hcall] at hcurrent
      obtain ⟨hnow, hcandidate, hle, hpublished, hbefore⟩ := hcurrent
      have hl : Later s { s.go t .idle with
          finished := ⟨started, s.now, candidate, value⟩ :: s.finished } := by
        refine ⟨Nat.le_succ _, Int.le_refl _, fun _ hc => hc, fun f hf => ?_⟩
        rcases List.mem_cons.mp hf with rfl | hf
        · exact Or.inr (Nat.le_refl _)
        · exact Or.inl hf
      refine ⟨fun u => ?_, h.last.later hl, fun f hf => ?_, fun f hf => ?_, fun f hf g hg hended => ?_⟩
      · by_cases hu : u = t
        · rw [hu]
          simp [Clock.go, InProgress]
        · have hother := (h.call u).later hl
          simpa [Clock.go, hu] using hother
      · rcases List.mem_cons.mp hf with rfl | hf
        · exact ⟨hnow, Nat.lt_succ_self _, hle⟩
        · have hf := h.returned f hf
          exact ⟨hf.1, Nat.lt_succ_of_lt hf.2.1, hf.2.2⟩
      · rcases List.mem_cons.mp hf with rfl | hf
        · exact ⟨hcandidate, hpublished.later hl⟩
        · exact ⟨(h.value f hf).1, (h.value f hf).2.later hl⟩
      · rcases List.mem_cons.mp hf with rfl | hf
        · rcases List.mem_cons.mp hg with rfl | hg
          · exact Int.le_refl _
          · have hg := h.returned g hg
            simp only at hended
            omega
        · rcases List.mem_cons.mp hg with rfl | hg
          · exact hbefore f hf hended
          · exact h.order f hf g hg hended
    · cases hs

end

/-- The last value that a call has loaded or is about to return. -/
def Call.seen : Call → Option Int
  | .exchange _ _ previous => some previous
  | .returning _ _ value => some value
  | _ => none

structure Nonnegative (s : Clock) : Prop where
  last : 0 ≤ s.lastSystemTimeNanoseconds
  call : ∀ t, ∀ value ∈ (s.call t).seen, 0 ≤ value
  finished : ∀ f ∈ s.finished, 0 ≤ f.value

theorem Nonnegative.go {s s' : Clock} {t : ThreadId} {call : Call} (h : Nonnegative s)
    (hcall : s'.call = Function.update s.call t call) (hlast : 0 ≤ s'.lastSystemTimeNanoseconds)
    (hseen : ∀ value ∈ call.seen, 0 ≤ value) (hfinished : ∀ f ∈ s'.finished, 0 ≤ f.value) :
    Nonnegative s' := by
  refine ⟨hlast, fun u => ?_, hfinished⟩
  rw [hcall]
  by_cases hu : u = t
  · rw [hu, Function.update_self]
    exact hseen
  · rw [Function.update_of_ne hu]
    exact h.call u

theorem nonnegative_step {s s' : Clock} (h : Nonnegative s) {a : Action} (hs : step s a = some s') :
    Nonnegative s' := by
  have hlast := h.last
  cases a with
  | start t candidate =>
    simp only [step] at hs
    split at hs
    · cases hs
      exact h.go rfl hlast (by simp [Call.seen]) h.finished
    · cases hs
  | load t =>
    simp only [step] at hs
    split at hs
    · cases hs
      exact h.go rfl hlast (by simpa [Call.seen] using hlast) h.finished
    · cases hs
  | exchange t spurious =>
    simp only [step] at hs
    split at hs
    · rename_i started candidate previous hcall
      have hprevious : 0 ≤ previous := h.call t previous (by rw [hcall]; rfl)
      split at hs
      · split at hs
        · cases hs
          have hcandidate : 0 ≤ candidate := by omega
          exact h.go rfl hcandidate (by simpa [Call.seen] using hcandidate) h.finished
        · cases hs
          exact h.go rfl hlast (by simpa [Call.seen] using hlast) h.finished
      · cases hs
        exact h.go rfl hlast (by simpa [Call.seen] using hprevious) h.finished
    · cases hs
  | finish t =>
    simp only [step] at hs
    split at hs
    · rename_i started candidate value hcall
      cases hs
      have hvalue : 0 ≤ value := h.call t value (by rw [hcall]; rfl)
      refine h.go rfl hlast (by simp [Call.seen]) fun f hf => ?_
      rcases List.mem_cons.mp hf with rfl | hf
      · exact hvalue
      · exact h.finished f hf
    · cases hs

theorem system_time_nonnegative {s : Clock}
    (h : Runs.Reached step (fun _ _ => True) initial s) : ∀ f ∈ s.finished, 0 ≤ f.value :=
  (h.invariant (P := Nonnegative) ⟨Int.le_refl 0, by simp [initial, Call.seen], by simp [initial]⟩
    fun _ _ _ hs _ hstep => nonnegative_step hs hstep).finished

theorem system_time_monotone {s : Clock} (h : Runs.Reached step (fun _ _ => True) initial s) :
    (∀ f ∈ s.finished, ∀ g ∈ s.finished, f.ended ≤ g.started → f.value ≤ g.value) ∧
      ∀ f ∈ s.finished, f.candidate ≤ f.value ∧ (f.value = 0 ∨ f.value ∈ s.candidates) := by
  have hinv : Inv s := h.invariant inv_initial fun _ _ _ hs _ hstep => inv_step hs hstep
  exact ⟨hinv.order, hinv.value⟩

/-- Two calls at once, one of which loses its exchange, and a later call with a lower candidate. -/
def fallback : List Action :=
  [.start 0 9, .start 1 7, .load 0, .load 1, .exchange 1 false, .exchange 0 true, .exchange 0 false,
    .finish 1, .finish 0, .start 2 3, .load 2, .exchange 2 false, .finish 2]

theorem system_time_monotone_fallback : ∃ s, Runs.perform step initial fallback = some s ∧
    s.finished = [⟨9, 12, 3, 9⟩, ⟨0, 8, 9, 9⟩, ⟨1, 7, 7, 7⟩] ∧
    ∀ f ∈ s.finished, ∀ g ∈ s.finished, f.ended ≤ g.started → f.value ≤ g.value := by
  obtain ⟨s, hs⟩ := Option.isSome_iff_exists.mp
    (show (Runs.perform step initial fallback).isSome by decide +kernel)
  have hfinished : (Runs.perform step initial fallback).map (fun s => s.finished) =
      some [⟨9, 12, 3, 9⟩, ⟨0, 8, 9, 9⟩, ⟨1, 7, 7, 7⟩] := by decide +kernel
  rw [hs, Option.map_some, Option.some.injEq] at hfinished
  exact ⟨s, hs, hfinished, (system_time_monotone
    (Runs.reached_of_perform hs (Runs.performs_always (fun _ _ => trivial) initial))).1⟩

end SimPLCity.SystemTime
