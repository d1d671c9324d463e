import SimPLCity.MaskedSections
import SimPLCity.PinRegistry
import Mathlib.Algebra.Group.Nat.Even

/-! The output pins and the LEDs on them, used by any number of threads and interrupt handlers: the
hardware toggles in a section with interrupts masked, the simulation in a compare-exchange loop. -/

namespace SimPLCity.OutputPins
open MaskedSections
open PinRegistry (Level)

def inverted (level : Level) : Level := if level = .high then .low else .high

@[simp] theorem inverted_inverted (level : Level) : inverted (inverted level) = level := by
  cases level <;> rfl

inductive Command
  | write (level : Level)
  | toggle
deriving DecidableEq, Repr

def Command.apply : Command → Level → Level
  | .write level, _ => level
  | .toggle, level => inverted level

def levelAfter (level : Level) (commands : List Command) : Level :=
  commands.foldl (fun level command => command.apply level) level

@[simp] theorem levelAfter_nil (level : Level) : levelAfter level [] = level := rfl

@[simp] theorem levelAfter_cons (level : Level) (command : Command) (commands : List Command) :
    levelAfter level (command :: commands) = levelAfter (command.apply level) commands := rfl

theorem levelAfter_append (level : Level) (commands later : List Command) :
    levelAfter level (commands ++ later) = levelAfter (levelAfter level commands) later :=
  List.foldl_append

theorem levelAfter_toggles (level : Level) (n : Nat) :
    levelAfter level (List.replicate n .toggle) = if Even n then level else inverted level := by
  induction n generalizing level with
  | zero => simp
  | succ n ih =>
    rw [List.replicate_succ, levelAfter_cons, ih]
    by_cases h : Even n
    · rw [if_pos h, if_neg (by simpa [Nat.even_add_one] using h)]
      rfl
    · rw [if_neg h, if_pos (Nat.even_add_one.mpr h)]
      exact inverted_inverted level

/-- `write(inverted(read()))` under the `InterruptGuard`: `read` gives the line, where the register
holds `level`. A write by itself is one access to the set/reset register. -/
def toggleBody {ι : Type*} (line : ι → Level → Level) (p : ι) : Program ι Level Unit :=
  .read p fun level => .write p (inverted (line p level)) (.ret ())

/-- Not so where an open-drain line is held low from outside. -/
def LineFollows {ι : Type*} (line : ι → Level → Level) : Prop := ∀ p level, line p level = level

abbrev Hardware (κ ι : Type*) := Core κ ι ι Level Unit

section
variable {κ ι : Type*} [DecidableEq ι]

def toggled (p : ι) (levels : ι → Level) : (ι → Level) × Unit :=
  (Function.update levels p (inverted (levels p)), ())

theorem toggleBody_run {line : ι → Level → Level} (hline : LineFollows line) (p : ι) (levels : ι → Level) :
    (toggleBody line p).run levels = toggled p levels := by
  simp [toggleBody, toggled, hline p]

/-- What the event is for the pin. -/
def commandOn (p : ι) : Event κ ι ι Level Unit → Option Command
  | .completed _ q _ => if q = p then some .toggle else none
  | .wrote _ q level => if q = p then some (.write level) else none

theorem sequential_level {levels₀ levels : ι → Level} {es : List (Event κ ι ι Level Unit)}
    (h : Sequential toggled levels₀ es levels) (p : ι) :
    levels p = levelAfter (levels₀ p) (es.filterMap (commandOn p)) := by
  induction h with
  | nil => rfl
  | @completed es levels levels' q r h c hr ih =>
    obtain rfl : (toggled q levels).1 = levels' := by rw [hr]
    rw [List.filterMap_append, levelAfter_append, ← ih]
    by_cases hq : q = p
    · subst hq
      simp [toggled, commandOn, Command.apply]
    · simp [toggled, commandOn, hq, Function.update_of_ne (Ne.symm hq)]
  | @wrote es levels h c q level ih =>
    rw [List.filterMap_append, levelAfter_append, ← ih]
    by_cases hq : q = p
    · subst hq
      simp [commandOn, Command.apply]
    · simp [commandOn, hq, Function.update_of_ne (Ne.symm hq)]

end

theorem hardware_sequential {κ ι : Type*} [DecidableEq κ] [DecidableEq ι] {line : ι → Level → Level}
    (hline : LineFollows line) {levels₀ : ι → Level} {c : κ} {s : Hardware κ ι}
    (h : Runs.Reached (MaskedSections.step (toggleBody line)) (fun _ _ => True)
      (MaskedSections.start levels₀ c) s) :
    MaskedSections.Good (fun _ => True) toggled levels₀ s := by
  have hcalls : Runs.Reached (MaskedSections.step (toggleBody line)) (fun _ i => i.calls fun _ => True)
      (MaskedSections.start levels₀ c) s := by
    refine h.weaken fun s i _ => ?_
    cases i <;> exact trivial
  exact sections_sequential (fun q _ levels => toggleBody_run hline q levels) hcalls

/-- A `toggle` between its load and its exchange. -/
structure Attempt (ι : Type*) where
  pin : ι
  expected : Level
  since : Nat

/-- `history` and `since`, its length at the load, are for the proofs only. -/
structure Simulation (κ ι : Type*) where
  level : ι → Level
  toggling : κ → Option (Attempt ι)
  history : List (κ × ι × Command)

inductive Action (κ ι : Type*)
  | write (t : κ) (p : ι) (level : Level)
  | load (t : κ) (p : ι)
  | compareExchange (t : κ) (spurious : Bool)
deriving DecidableEq, Repr

section
variable {κ ι : Type*} [DecidableEq κ] [DecidableEq ι]

/-- A weak compare-exchange may fail on the expected level; one that fails loads again. -/
def step (s : Simulation κ ι) : Action κ ι → Option (Simulation κ ι)
  | .write t p level =>
    match s.toggling t with
    | none => some { s with
      level := Function.update s.level p level
      history := s.history ++ [(t, p, .write level)] }
    | some _ => none
  | .load t p =>
    match s.toggling t with
    | none => some { s with
      toggling := Function.update s.toggling t (some ⟨p, s.level p, s.history.length⟩) }
    | some _ => none
  | .compareExchange t spurious =>
    match s.toggling t with
    | none => none
    | some a =>
      if s.level a.pin = a.expected ∧ spurious = false then
        some {
          level := Function.update s.level a.pin (inverted a.expected)
          toggling := Function.update s.toggling t none
          history := s.history ++ [(t, a.pin, .toggle)] }
      else
        some { s with
          toggling := Function.update s.toggling t (some ⟨a.pin, s.level a.pin, s.history.length⟩) }

def start (levels : ι → Level) : Simulation κ ι := ⟨levels, fun _ => none, []⟩

def requestOn (p : ι) (x : κ × ι × Command) : Option Command := if x.2.1 = p then some x.2.2 else none

/-- The level of each pin is what the completed calls made of it, and a toggle expects what they had
made of it when it looked. -/
structure Good (levels₀ : ι → Level) (s : Simulation κ ι) : Prop where
  level : ∀ p, s.level p = levelAfter (levels₀ p) (s.history.filterMap (requestOn p))
  since : ∀ t a, s.toggling t = some a → a.since ≤ s.history.length
  expected : ∀ t a, s.toggling t = some a →
    a.expected = levelAfter (levels₀ a.pin) ((s.history.take a.since).filterMap (requestOn a.pin))
  others : ∀ t a, s.toggling t = some a → ∀ x ∈ s.history.drop a.since, x.1 ≠ t

variable {levels₀ : ι → Level} {s s' : Simulation κ ι}

omit [DecidableEq κ] in
theorem good_start (levels₀ : ι → Level) : Good levels₀ (start levels₀ : Simulation κ ι) where
  level := fun _ => rfl
  since := nofun
  expected := nofun
  others := nofun

omit [DecidableEq κ] in
theorem Good.append (h : Good levels₀ s) (t : κ) (p : ι) (command : Command)
    {toggling : κ → Option (Attempt ι)}
    (hkept : ∀ u a, toggling u = some a → s.toggling u = some a ∧ t ≠ u) :
    Good levels₀ ⟨Function.update s.level p (command.apply (s.level p)), toggling,
      s.history ++ [(t, p, command)]⟩ where
  level := fun q => by
    simp only [List.filterMap_append, levelAfter_append, ← h.level q]
    by_cases hq : p = q
    · subst hq
      simp [requestOn]
    · simp [requestOn, hq, Function.update_of_ne (Ne.symm hq)]
  since := fun u a ha => by
    have hle := h.since u a (hkept u a ha).1
    simp only [List.length_append]
    omega
  expected := fun u a ha => by
    have hold := (hkept u a ha).1
    simp only [List.take_append_of_le_length (h.since u a hold)]
    exact h.expected u a hold
  others := fun u a ha x hx => by
    obtain ⟨hold, hne⟩ := hkept u a ha
    simp only [List.drop_append_of_le_length (h.since u a hold)] at hx
    rcases List.mem_append.mp hx with hx | hx
    · exact h.others u a hold x hx
    · obtain rfl := List.mem_singleton.mp hx
      exact hne

theorem Good.look (h : Good levels₀ s) (t : κ) (p : ι) :
    Good levels₀ { s with
      toggling := Function.update s.toggling t (some ⟨p, s.level p, s.history.length⟩) } := by
  have hcases : ∀ u a,
      Function.update s.toggling t (some ⟨p, s.level p, s.history.length⟩) u = some a →
      (⟨p, s.level p, s.history.length⟩ : Attempt ι) = a ∨ s.toggling u = some a := by
    intro u a ha
    by_cases hu : u = t
    · rw [hu, Function.update_self] at ha
      exact Or.inl (Option.some.inj ha)
    · rw [Function.update_of_ne hu] at ha
      exact Or.inr ha
  refine ⟨h.level, fun u a ha => ?_, fun u a ha => ?_, fun u a ha x hx => ?_⟩
  · rcases hcases u a ha with rfl | hold
    · exact Nat.le_refl _
    · exact h.since u a hold
  · rcases hcases u a ha with rfl | hold
    · rw [List.take_length]
      exact h.level p
    · exact h.expected u a hold
  · rcases hcases u a ha with rfl | hold
    · rw [List.drop_length] at hx
      cases hx
    · exact h.others u a hold x hx

theorem good_step (h : Good levels₀ s) {i : Action κ ι} (hs : step s i = some s') : Good levels₀ s' := by
  cases i with
  | write t p level =>
    simp only [step] at hs
    split at hs
    · rename_i hnone
      cases hs
      refine h.append t p (.write level) fun u a ha => ⟨ha, ?_⟩
      rintro rfl
      rw [hnone] at ha
      cases ha
    · cases hs
  | load t p =>
    simp only [step] at hs
    split at hs
    · cases hs
      exact h.look t p
    · cases hs
  | compareExchange t spurious =>
    simp only [step] at hs
    split at hs
    · cases hs
    · rename_i a ha
      split at hs
      · rename_i hequal
        cases hs
        rw [← hequal.1]
        refine h.append t a.pin .toggle fun u b hb => ?_
        have hu : u ≠ t := by
          rintro rfl
          rw [Function.update_self] at hb
          cases hb
        rw [Function.update_of_ne hu] at hb
        exact ⟨hb, Ne.symm hu⟩
      · cases hs
        exact h.look t a.pin

/-- A toggle whose exchange fails, and not spuriously, has been overtaken by another thread. -/
theorem Good.overtaken (h : Good levels₀ s) {t : κ} {a : Attempt ι} (ha : s.toggling t = some a)
    (hne : s.level a.pin ≠ a.expected) :
    ∃ x ∈ s.history.drop a.since, x.1 ≠ t ∧ x.2.1 = a.pin := by
  by_contra hnone
  have hrest : (s.history.drop a.since).filterMap (requestOn a.pin) = [] := by
    refine List.filterMap_eq_nil_iff.mpr fun x hx => if_neg fun hpin => ?_
    exact hnone ⟨x, hx, h.others t a ha x hx, hpin⟩
  apply hne
  rw [h.level, h.expected t a ha, ← List.take_append_drop a.since s.history, List.filterMap_append, hrest,
    List.append_nil, List.take_append_drop]

end

/-- In every run on either platform, on the hardware with lines that follow their registers, the
level of a pin is what the completed calls made of it, one after the other. In the simulation, a toggle
tries again only where another thread's call took effect meanwhile, or the exchange failed spuriously. -/
theorem outputs_atomic {κ ι : Type*} [DecidableEq κ] [DecidableEq ι] (levels₀ : ι → Level) :
    (∀ line : ι → Level → Level, LineFollows line → ∀ (c : κ) (s : Hardware κ ι),
      Runs.Reached (MaskedSections.step (toggleBody line)) (fun _ _ => True)
        (MaskedSections.start levels₀ c) s →
      (∀ d, (s.place d).isInside = false) →
        ∀ p, s.memory p = levelAfter (levels₀ p) (s.history.filterMap (commandOn p))) ∧
    (∀ s : Simulation κ ι, Runs.Reached step (fun _ _ => True) (start levels₀) s →
      (∀ p, s.level p = levelAfter (levels₀ p) (s.history.filterMap (requestOn p))) ∧
      ∀ t a, s.toggling t = some a → s.level a.pin ≠ a.expected →
        ∃ x ∈ s.history.drop a.since, x.1 ≠ t ∧ x.2.1 = a.pin) := by
  refine ⟨fun line hline c s hreached hquiet p => ?_, fun s hreached => ?_⟩
  · have hgood := hardware_sequential hline hreached
    exact sequential_level ((accounted_outside (hquiet s.running)).mp hgood.accounted) p
  · have hgood : Good levels₀ s :=
      hreached.invariant (good_start levels₀) fun _ _ _ h _ hs => good_step h hs
    exact ⟨hgood.level, fun t a ha hne => hgood.overtaken ha hne⟩

/-- Two threads look at the low pin 0; the first inverts it, and the second has to look again. -/
def overtaken : List (Action Nat Nat) :=
  [.load 1 0, .load 2 0, .compareExchange 1 false, .compareExchange 2 false, .compareExchange 2 true,
    .compareExchange 2 false]

/-- An interrupt comes between the save of the mask and the masking, and its handler toggles too. -/
def interrupted : List (MaskedSections.Action Nat Nat Nat Level) :=
  [.call 0, .switch 1, .call 0, .mask, .access, .access, .unmask, .switch 0, .mask, .access, .access, .unmask]

theorem outputs_atomic_overtaken :
    (∃ s : Hardware Nat Nat, s.history = [.completed 1 0 (), .completed 0 0 ()] ∧
      s.memory 0 = levelAfter .low (s.history.filterMap (commandOn 0)) ∧ s.memory 0 = .low) ∧
    ∃ s : Simulation Nat Nat, s.history = [(1, 0, .toggle), (2, 0, .toggle)] ∧
      s.level 0 = levelAfter .low (s.history.filterMap (requestOn 0)) ∧ s.level 0 = .low := by
  constructor
  · have hsome : (Runs.perform (MaskedSections.step (toggleBody fun _ level => level))
        (MaskedSections.start (fun _ => .low) 0) interrupted).isSome = true := by decide
    obtain ⟨s, hs⟩ := Option.isSome_iff_exists.mp hsome
    have hreached : Runs.Reached (MaskedSections.step (toggleBody fun _ level => level)) (fun _ _ => True)
        (MaskedSections.start (fun _ => .low) 0) s :=
      Runs.reached_of_perform hs (Runs.performs_always (fun _ _ => trivial) _)
    have hvalues : (Runs.perform (MaskedSections.step (toggleBody fun _ level => level))
        (MaskedSections.start (fun _ => .low) 0) interrupted).map
          (fun s => (s.history, s.memory 0, (s.place s.running).isInside)) =
        some ([.completed 1 0 (), .completed 0 0 ()], .low, false) := rfl
    rw [hs] at hvalues
    simp only [Option.map_some, Option.some.injEq, Prod.mk.injEq] at hvalues
    obtain ⟨hhistory, hlevel, hrunning⟩ := hvalues
    have hline : LineFollows fun (_ : Nat) (level : Level) => level := fun _ _ => rfl
    have haway := (hardware_sequential hline hreached).away
    refine ⟨s, hhistory, ?_, hlevel⟩
    refine (outputs_atomic fun _ => .low).1 _ hline 0 s hreached (fun d => ?_) 0
    by_cases hd : d = s.running
    · rw [hd]
      exact hrunning
    · exact haway d hd
  · have hsome : (Runs.perform step (start fun _ => .low) overtaken).isSome = true := by decide
    obtain ⟨s, hs⟩ := Option.isSome_iff_exists.mp hsome
    have hreached : Runs.Reached step (fun _ _ => True) (start fun _ => .low) s :=
      Runs.reached_of_perform hs (Runs.performs_always (fun _ _ => trivial) _)
    have hvalues : (Runs.perform step (start fun _ => .low) overtaken).map
        (fun s => (s.history, s.level 0)) = some ([(1, 0, .toggle), (2, 0, .toggle)], .low) := by decide
    rw [hs, Option.map_some, Option.some.injEq, Prod.mk.injEq] at hvalues
    exact ⟨s, hvalues.1, ((outputs_atomic fun _ => .low).2 s hreached).1 0, hvalues.2⟩

/-- `Led::isOn`. -/
def isOn (activeLevel level : Level) : Bool := level = activeLevel

inductive LedCall
  | turnOn
  | turnOff
  | toggle
deriving DecidableEq, Repr

def LedCall.command (activeLevel : Level) : LedCall → Command
  | .turnOn => .write activeLevel
  | .turnOff => .write (inverted activeLevel)
  | .toggle => .toggle

def LedCall.apply : LedCall → Bool → Bool
  | .turnOn, _ => true
  | .turnOff, _ => false
  | .toggle, on => !on

theorem isOn_command (activeLevel level : Level) (call : LedCall) :
    isOn activeLevel ((call.command activeLevel).apply level) = call.apply (isOn activeLevel level) := by
  cases call <;> cases activeLevel <;> cases level <;> rfl

/-- Whatever its polarity, the LED is on as its calls say. -/
theorem isOn_levelAfter (activeLevel level : Level) (calls : List LedCall) :
    isOn activeLevel (levelAfter level (calls.map (LedCall.command activeLevel))) =
      calls.foldl (fun on call => call.apply on) (isOn activeLevel level) := by
  induction calls generalizing level with
  | nil => rfl
  | cons call calls ih =>
    rw [List.map_cons, levelAfter_cons, ih, isOn_command]
    rfl

/-- Where the pin is left to toggles, the LED has changed if their number is odd. -/
theorem isOn_toggles (activeLevel level : Level) (n : Nat) :
    isOn activeLevel (levelAfter level (List.replicate n .toggle)) =
      if Even n then isOn activeLevel level else !isOn activeLevel level := by
  rw [levelAfter_toggles]
  split
  · rfl
  · exact isOn_command activeLevel level .toggle

end SimPLCity.OutputPins
