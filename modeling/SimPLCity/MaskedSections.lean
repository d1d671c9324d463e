import Mathlib.Logic.Function.Basic
import SimPLCity.Runs

/-! Programs that read and write one cell of a memory at a time, and a single core that runs them
with switching masked. Any number of contexts take turns on the core: a switch can come between any
two steps, unless it is masked. A masked section saves the mask, sets it, runs its program and puts
back what it saved, so a section may begin where its caller has set the mask. -/

namespace SimPLCity.MaskedSections

inductive Program (α β ρ : Type*)
  | ret (r : ρ)
  | read (a : α) (k : β → Program α β ρ)
  | write (a : α) (b : β) (k : Program α β ρ)

section
variable {α β ρ τ : Type*} [DecidableEq α]

def Program.bind : Program α β ρ → (ρ → Program α β τ) → Program α β τ
  | .ret r, f => f r
  | .read a k, f => .read a fun b => (k b).bind f
  | .write a b k, f => .write a b (k.bind f)

def Program.run : Program α β ρ → (α → β) → (α → β) × ρ
  | .ret r, m => (m, r)
  | .read a k, m => (k (m a)).run m
  | .write a b k, m => k.run (Function.update m a b)

@[simp] theorem run_ret (r : ρ) (m : α → β) : (Program.ret r).run m = (m, r) := rfl

@[simp] theorem run_read (a : α) (k : β → Program α β ρ) (m : α → β) :
    (Program.read a k).run m = (k (m a)).run m := rfl

@[simp] theorem run_write (a : α) (b : β) (k : Program α β ρ) (m : α → β) :
    (Program.write a b k).run m = k.run (Function.update m a b) := rfl

@[simp] theorem run_bind (p : Program α β ρ) (f : ρ → Program α β τ) (m : α → β) :
    (p.bind f).run m = (f (p.run m).2).run (p.run m).1 := by
  induction p generalizing m with
  | ret r => rfl
  | read a k ih => exact ih (m a) m
  | write a b k ih => exact ih (Function.update m a b)

/-- The next access, if there is one. -/
def Program.access : Program α β ρ → (α → β) → Option (Program α β ρ × (α → β))
  | .ret _, _ => none
  | .read a k, m => some (k (m a), m)
  | .write a b k, m => some (k, Function.update m a b)

theorem run_access {p q : Program α β ρ} {m m' : α → β} (h : p.access m = some (q, m')) :
    q.run m' = p.run m := by
  cases p <;> cases h <;> rfl

end

/-- `saved` is between reading the mask and setting it. -/
inductive Place (ω α β ρ : Type*)
  | outside
  | saved (o : ω) (previous : Bool)
  | inside (o : ω) (previous : Bool) (rest : Program α β ρ)
  | returned (o : ω) (r : ρ)

inductive Event (κ ω α β ρ : Type*)
  | completed (c : κ) (o : ω) (r : ρ)
  | wrote (c : κ) (a : α) (b : β)

/-- `history` is for the proofs only. -/
structure Core (κ ω α β ρ : Type*) where
  memory : α → β
  masked : Bool
  running : κ
  place : κ → Place ω α β ρ
  history : List (Event κ ω α β ρ)

/-- `setMask` and `write` are what a context does by itself, outside the sections. -/
inductive Action (κ ω α β : Type*)
  | call (o : ω)
  | mask
  | access
  | unmask
  | switch (c : κ)
  | setMask (b : Bool)
  | write (a : α) (b : β)

section
variable {κ ω α β ρ : Type*}

def Place.isOutside : Place ω α β ρ → Bool
  | .outside | .returned _ _ => true
  | _ => false

def Place.isInside : Place ω α β ρ → Bool
  | .inside _ _ _ => true
  | _ => false

theorem outside_not_inside {p : Place ω α β ρ} (h : p.isOutside = true) : p.isInside = false := by
  cases p <;> simp_all [Place.isOutside, Place.isInside]

/-- The section that the context has begun. -/
def Place.begun : Place ω α β ρ → Option ω
  | .saved o _ | .inside o _ _ => some o
  | _ => none

/-- A section that is begun meets `P`. -/
def Action.calls (P : ω → Prop) : Action κ ω α β → Prop
  | .call o => P o
  | _ => True

instance (P : ω → Prop) [DecidablePred P] : DecidablePred (Action.calls P : Action κ ω α β → Prop)
  | .call o => inferInstanceAs (Decidable (P o))
  | .mask | .access | .unmask | .switch _ | .setMask _ | .write _ _ => inferInstanceAs (Decidable True)

variable [DecidableEq κ] [DecidableEq α]

def Core.go (s : Core κ ω α β ρ) (p : Place ω α β ρ) : Core κ ω α β ρ :=
  { s with place := Function.update s.place s.running p }

def step (body : ω → Program α β ρ) (s : Core κ ω α β ρ) : Action κ ω α β → Option (Core κ ω α β ρ)
  | .call o => if (s.place s.running).isOutside then some (s.go (.saved o s.masked)) else none
  | .mask =>
    match s.place s.running with
    | .saved o previous => some ({ s with masked := true }.go (.inside o previous (body o)))
    | _ => none
  | .access =>
    match s.place s.running with
    | .inside o previous rest =>
      (rest.access s.memory).map fun next => { s with memory := next.2 }.go (.inside o previous next.1)
    | _ => none
  | .unmask =>
    match s.place s.running with
    | .inside o previous (.ret r) =>
      some ({ s with
        masked := previous
        history := s.history ++ [Event.completed s.running o r] }.go (.returned o r))
    | _ => none
  | .switch c => if s.masked then none else some { s with running := c }
  | .setMask b => if (s.place s.running).isOutside then some { s with masked := b } else none
  | .write a b =>
    if (s.place s.running).isOutside then
      some { s with
        memory := Function.update s.memory a b
        history := s.history ++ [Event.wrote s.running a b] }
    else none

def start (m : α → β) (c : κ) : Core κ ω α β ρ := ⟨m, false, c, fun _ => .outside, []⟩

/-- The events, one at a time and each as a whole, lead from one memory to the other, and each
section has the result that is recorded. -/
inductive Sequential (effect : ω → (α → β) → (α → β) × ρ) (m₀ : α → β) :
    List (Event κ ω α β ρ) → (α → β) → Prop
  | nil : Sequential effect m₀ [] m₀
  | completed {es : List (Event κ ω α β ρ)} {m m' : α → β} {o : ω} {r : ρ} (h : Sequential effect m₀ es m)
      (c : κ) (hr : effect o m = (m', r)) : Sequential effect m₀ (es ++ [Event.completed c o r]) m'
  | wrote {es : List (Event κ ω α β ρ)} {m : α → β} (h : Sequential effect m₀ es m) (c : κ) (a : α) (b : β) :
      Sequential effect m₀ (es ++ [Event.wrote c a b]) (Function.update m a b)

/-- Whether a section is under way, the memory is what the completed events made of it. -/
def Accounted (effect : ω → (α → β) → (α → β) × ρ) (m₀ : α → β) (s : Core κ ω α β ρ) : Prop :=
  match s.place s.running with
  | .inside o _ rest => ∃ m, Sequential effect m₀ s.history m ∧ rest.run s.memory = effect o m
  | _ => Sequential effect m₀ s.history s.memory

/-- A context that is not running has no section under way, and had not masked what it saved. -/
structure Good (P : ω → Prop) (effect : ω → (α → β) → (α → β) × ρ) (m₀ : α → β)
    (s : Core κ ω α β ρ) : Prop where
  away : ∀ c, c ≠ s.running → (s.place c).isInside = false
  saved : ∀ c o previous, s.place c = .saved o previous → previous = if c = s.running then s.masked else false
  masked : (s.place s.running).isInside = true → s.masked = true
  begun : ∀ c, ∀ o ∈ (s.place c).begun, P o
  accounted : Accounted effect m₀ s
  returned : ∀ c o r, s.place c = .returned o r → Event.completed c o r ∈ s.history

section
variable {P : ω → Prop} {effect : ω → (α → β) → (α → β) × ρ} {m₀ : α → β} {s s' : Core κ ω α β ρ}
  {body : ω → Program α β ρ}

omit [DecidableEq κ] in
theorem accounted_outside (h : (s.place s.running).isInside = false) :
    Accounted effect m₀ s ↔ Sequential effect m₀ s.history s.memory := by
  unfold Accounted
  cases hp : s.place s.running <;> simp_all [Place.isInside]

theorem good_start (m₀ : α → β) (c : κ) : Good P effect m₀ (start m₀ c : Core κ ω α β ρ) where
  away := fun _ _ => rfl
  saved := nofun
  masked := nofun
  begun := nofun
  accounted := .nil
  returned := nofun

theorem Good.go (h : Good P effect m₀ s) {p : Place ω α β ρ} {x : Core κ ω α β ρ}
    (hplace : x.place = s.place) (hrunning : x.running = s.running)
    (hhistory : ∀ e ∈ s.history, e ∈ x.history)
    (hsaved : ∀ o previous, p = .saved o previous → previous = x.masked)
    (hmasked : p.isInside = true → x.masked = true) (hbegun : ∀ o ∈ p.begun, P o)
    (haccounted : Accounted effect m₀ (x.go p))
    (hreturned : ∀ o r, p = .returned o r → Event.completed s.running o r ∈ x.history) :
    Good P effect m₀ (x.go p) := by
  have hother : ∀ c, c ≠ s.running → (x.go p).place c = s.place c := by
    intro c hc
    simp only [Core.go, hrunning, hplace]
    exact Function.update_of_ne hc ..
  have hself : (x.go p).place s.running = p := by
    simp [Core.go, hrunning]
  have hrun : (x.go p).running = s.running := hrunning
  refine ⟨fun c hc => ?_, fun c o previous hc => ?_, ?_, fun c o ho => ?_, haccounted, fun c o r hc => ?_⟩
  · rw [hrun] at hc
    rw [hother c hc]
    exact h.away c hc
  · by_cases heq : c = s.running
    · subst heq
      rw [hself] at hc
      rw [hrun, if_pos rfl]
      exact hsaved o previous hc
    · rw [hother c heq] at hc
      rw [hrun, if_neg heq]
      have hold := h.saved c o previous hc
      rwa [if_neg heq] at hold
  · rw [hrun, hself]
    exact hmasked
  · by_cases heq : c = s.running
    · subst heq
      rw [hself] at ho
      exact hbegun o ho
    · rw [hother c heq] at ho
      exact h.begun c o ho
  · by_cases heq : c = s.running
    · subst heq
      rw [hself] at hc
      exact hreturned o r hc
    · rw [hother c heq] at hc
      exact hhistory _ (h.returned c o r hc)

theorem Good.idle (h : Good P effect m₀ s) (hout : (s.place s.running).isOutside = true)
    {x : Core κ ω α β ρ} (hplace : x.place = s.place) (hrunning : x.running = s.running)
    (hhistory : ∀ e ∈ s.history, e ∈ x.history) (haccounted : Accounted effect m₀ x) :
    Good P effect m₀ x where
  away := by
    rw [hplace, hrunning]
    exact h.away
  saved := fun c o previous hc => by
    rw [hplace] at hc
    have hold := h.saved c o previous hc
    have hne : c ≠ s.running := by
      rintro rfl
      rw [hc] at hout
      cases hout
    rw [hrunning, if_neg hne]
    rwa [if_neg hne] at hold
  masked := fun hin => by
    rw [hplace, hrunning, outside_not_inside hout] at hin
    cases hin
  begun := by
    rw [hplace]
    exact h.begun
  accounted := haccounted
  returned := fun c o r hc => hhistory _ (h.returned c o r (hplace ▸ hc))

theorem good_step (h : Good P effect m₀ s) (hbody : ∀ o, P o → ∀ m, (body o).run m = effect o m)
    {i : Action κ ω α β} (hP : i.calls P) (hs : step body s i = some s') :
    Good P effect m₀ s' := by
  have hself : ∀ (x : Core κ ω α β ρ) (p : Place ω α β ρ), (x.go p).place (x.go p).running = p :=
    fun x p => Function.update_self ..
  cases i with
  | call o =>
    simp only [step] at hs
    split at hs
    · rename_i hout
      cases hs
      have hbefore := (accounted_outside (outside_not_inside hout)).mp h.accounted
      refine h.go rfl rfl (fun _ he => he) (fun o' previous hp => by cases hp; rfl) nofun
        (fun o' ho => ?_) ?_ nofun
      · obtain rfl : o = o' := Option.some.inj ho
        exact hP
      · exact (accounted_outside (by rw [hself]; rfl)).mpr hbefore
    · cases hs
  | mask =>
    simp only [step] at hs
    split at hs
    · rename_i o previous hp
      cases hs
      have hPo : P o := h.begun s.running o (by rw [hp]; rfl)
      have hbefore := (accounted_outside (by rw [hp]; rfl)).mp h.accounted
      refine h.go rfl rfl (fun _ he => he) nofun (fun _ => rfl) (fun o' ho => ?_) ?_ nofun
      · obtain rfl : o = o' := Option.some.inj ho
        exact hPo
      · unfold Accounted
        rw [hself]
        exact ⟨s.memory, hbefore, hbody o hPo s.memory⟩
    · cases hs
  | access =>
    simp only [step] at hs
    split at hs
    · rename_i o previous rest hp
      obtain ⟨next, hnext, rfl⟩ := Option.map_eq_some_iff.mp hs
      have hPo : P o := h.begun s.running o (by rw [hp]; rfl)
      have haccounted := h.accounted
      unfold Accounted at haccounted
      rw [hp] at haccounted
      obtain ⟨m, hseq, hrun⟩ := haccounted
      refine h.go rfl rfl (fun _ he => he) nofun (fun _ => h.masked (by rw [hp]; rfl)) (fun o' ho => ?_) ?_
        nofun
      · obtain rfl : o = o' := Option.some.inj ho
        exact hPo
      · unfold Accounted
        rw [hself]
        exact ⟨m, hseq, (run_access hnext).trans hrun⟩
    · cases hs
  | unmask =>
    simp only [step] at hs
    split at hs
    · rename_i o previous r hp
      cases hs
      have haccounted := h.accounted
      unfold Accounted at haccounted
      rw [hp] at haccounted
      obtain ⟨m, hseq, hrun⟩ := haccounted
      refine h.go rfl rfl (fun _ he => List.mem_append_left _ he) nofun nofun nofun ?_ (fun o' r' hr => ?_)
      · exact (accounted_outside (by rw [hself]; rfl)).mpr (hseq.completed s.running hrun.symm)
      · cases hr
        exact List.mem_append_right _ List.mem_cons_self
    · cases hs
  | «switch» c =>
    simp only [step] at hs
    split at hs
    · cases hs
    · rename_i hmasked
      cases hs
      have hinside : ∀ d, (s.place d).isInside = false := by
        intro d
        by_cases hd : d = s.running
        · rw [hd]
          by_contra hin
          exact hmasked (h.masked (by simpa using hin))
        · exact h.away d hd
      have hbefore := (accounted_outside (hinside s.running)).mp h.accounted
      refine ⟨fun d _ => hinside d, fun d o previous hd => ?_, fun hin => ?_, h.begun,
        (accounted_outside (hinside c)).mpr hbefore, h.returned⟩
      · have hold := h.saved d o previous hd
        have hfalse : s.masked = false := by simpa using hmasked
        rw [hfalse, ite_self] at hold
        rw [hold, hfalse, ite_self]
      · rw [hinside c] at hin
        cases hin
  | setMask b =>
    simp only [step] at hs
    split at hs
    · rename_i hout
      cases hs
      have hbefore := (accounted_outside (outside_not_inside hout)).mp h.accounted
      refine h.idle hout rfl rfl (fun _ he => he) ?_
      exact (accounted_outside (outside_not_inside hout)).mpr hbefore
    · cases hs
  | write a b =>
    simp only [step] at hs
    split at hs
    · rename_i hout
      cases hs
      have hbefore := (accounted_outside (outside_not_inside hout)).mp h.accounted
      refine h.idle hout rfl rfl (fun _ he => List.mem_append_left _ he) ?_
      refine (accounted_outside ?_).mpr (hbefore.wrote s.running a b)
      exact outside_not_inside hout
    · cases hs

/-- In every run, the sections happen as if each were one step. -/
theorem sections_sequential (hbody : ∀ o, P o → ∀ m, (body o).run m = effect o m) {c : κ}
    (h : Runs.Reached (step body) (fun _ i => i.calls P) (start m₀ c) s) :
    Good P effect m₀ s :=
  h.invariant (good_start m₀ c) fun _ _ _ hg hP hs => good_step hg hbody hP hs

/-- What a section saves is the mask as it was called, and what it puts back. -/
theorem Good.restored (h : Good P effect m₀ s) {o : ω} {previous : Bool}
    (hp : s.place s.running = .saved o previous) : previous = s.masked := by
  have hold := h.saved s.running o previous hp
  rwa [if_pos rfl] at hold

end

end

end SimPLCity.MaskedSections
