import SimPLCity.OutputPins
import SimPLCity.SharedOwners

/-! An input pin of the simulation: threads set its level, and its edges call the callback that is
set, which may be replaced meanwhile. A callback may set the level or the callback itself. -/

namespace SimPLCity.InputPins
open SharedOwners
open PinRegistry (Level Edge)
open OutputPins (inverted)

def edgeMatches (edge : Edge) (previous current : Level) : Bool :=
  if previous = current then false
  else
    match edge with
    | .rising => current = .high
    | .falling => current = .low
    | .both => true
    | .none => false

/-- Where a call of `setSimulatedLevel` is: its edge has matched, it has copied the pointer to the
callback, or the callback runs. -/
inductive Progress
  | matched (level : Level)
  | taken (callback : Option Nat) (level : Level)
  | calling (callback : Nat)
deriving DecidableEq, Repr

/-- The level that is still to be told. -/
def Progress.waiting : Progress → Option Level
  | .matched level | .taken _ level => some level
  | .calling _ => none

def Progress.held : Progress → Option Nat
  | .matched _ => none
  | .taken callback _ => callback
  | .calling callback => some callback

/-- `calls` are under way, by any threads. `edges` are the levels before and after each exchange and
`heard` what the callbacks were told, without a callback where none was set; both are for the proofs
only. -/
structure Input where
  edge : Edge
  level : Level
  edgeCallback : Option Nat := none
  shared : Shared := {}
  calls : List Progress := []
  edges : List (Level × Level) := []
  heard : List (Option Nat × Level) := []

inductive Action
  | setSimulatedLevel (level : Level)
  | take (n : Nat)
  | call (n : Nat)
  | return (n : Nat)
  | setEdgeCallback (present : Bool)
deriving DecidableEq, Repr

def setSimulatedLevel (s : Input) (level : Level) : Input :=
  let edges := s.edges ++ [(s.level, level)]
  if edgeMatches s.edge s.level level then
    { s with level := level, edges := edges, calls := s.calls ++ [.matched level] }
  else { s with level := level, edges := edges }

/-- The old callback is dropped by the assignment. -/
def setEdgeCallback (s : Input) (present : Bool) : Input :=
  if present then
    { s with edgeCallback := some s.shared.next, shared := s.shared.make.release s.edgeCallback }
  else { s with edgeCallback := none, shared := s.shared.release s.edgeCallback }

/-- The `n`th call that is under way goes on. -/
def step (s : Input) : Action → Option Input
  | .setSimulatedLevel level => some (setSimulatedLevel s level)
  | .setEdgeCallback present => some (setEdgeCallback s present)
  | .take n =>
    match s.calls[n]? with
    | some (.matched level) => some { s with
      calls := s.calls.set n (.taken s.edgeCallback level)
      shared := s.shared.copy s.edgeCallback }
    | _ => none
  | .call n =>
    match s.calls[n]? with
    | some (.taken (some c) level) => some { s with
      calls := s.calls.set n (.calling c)
      heard := s.heard ++ [(some c, level)] }
    | some (.taken none level) => some { s with
      calls := s.calls.eraseIdx n
      heard := s.heard ++ [(none, level)] }
    | _ => none
  | .return n =>
    match s.calls[n]? with
    | some (.calling c) => some { s with
      calls := s.calls.eraseIdx n
      shared := s.shared.release (some c) }
    | _ => none

def start (edge : Edge) (level : Level) : Input := { edge, level }

/-- The new levels of the edges that the pin is configured for. -/
def selected (s : Input) : List Level := (s.edges.filter fun e => edgeMatches s.edge e.1 e.2).map Prod.snd

def waiting (s : Input) : List Level := s.calls.filterMap Progress.waiting

def told (s : Input) : List Level := s.heard.map Prod.snd

/-- Every pointer to a callback. -/
def pointers (s : Input) : List Nat := s.edgeCallback.toList ++ s.calls.filterMap Progress.held

/-- Of changes to one level and changes to the other, as many as it takes from `first` to `last`. -/
def Balanced (level first last : Level) (levels : List Level) : Prop :=
  levels.count level + (if first = level then 1 else 0) =
    levels.count (inverted level) + if last = level then 1 else 0

theorem balanced_append {level first before after : Level} {levels : List Level}
    (h : Balanced level first before levels) :
    Balanced level first after (levels ++ if before = after then [] else [after]) := by
  unfold Balanced at *
  have hstep : ∀ before after : Level,
      (if before = after then [] else [after]).count level + (if before = level then 1 else 0) =
        (if before = after then [] else [after]).count (inverted level) + if after = level then 1 else 0 := by
    intro before after
    cases level <;> cases before <;> cases after <;> rfl
  have hlast := hstep before after
  rw [List.count_append, List.count_append]
  omega

section
variable {s s' : Input} {n : Nat} {x : Progress}

theorem calls_perm (h : s.calls[n]? = some x) : s.calls.Perm (x :: s.calls.eraseIdx n) := by
  obtain ⟨hn, hx⟩ := List.getElem?_eq_some_iff.mp h
  exact hx ▸ (List.getElem_cons_eraseIdx_perm hn).symm

theorem calls_set (h : s.calls[n]? = some x) (y : Progress) :
    (s.calls.set n y).Perm (y :: s.calls.eraseIdx n) :=
  List.set_perm_cons_eraseIdx (List.getElem?_eq_some_iff.mp h).1 y

/-- The level that the exchange adds to those that are to be told. -/
def added (s : Input) (level : Level) : List Level :=
  if edgeMatches s.edge s.level level then [level] else []

theorem added_length (s : Input) (level : Level) : (added s level).length ≤ 1 := by
  unfold added
  split
  · exact Nat.le_refl 1
  · exact Nat.zero_le 1

theorem added_both {level : Level} (h : s.edge = .both) :
    added s level = if s.level = level then [] else [level] := by
  unfold added edgeMatches
  rw [h]
  split <;> simp [*]

theorem selected_setSimulatedLevel (s : Input) (level : Level) :
    selected (setSimulatedLevel s level) = selected s ++ added s level := by
  have hedges : ((s.edges ++ [(s.level, level)]).filter fun e => edgeMatches s.edge e.1 e.2).map Prod.snd =
      selected s ++ added s level := by
    rw [List.filter_append, List.map_append]
    unfold added
    split <;> simp [selected, *]
  unfold setSimulatedLevel
  split <;> exact hedges

theorem waiting_setSimulatedLevel (s : Input) (level : Level) :
    waiting (setSimulatedLevel s level) = waiting s ++ added s level := by
  unfold setSimulatedLevel added
  split
  · exact List.filterMap_append
  · exact (List.append_nil _).symm

theorem told_setSimulatedLevel (s : Input) (level : Level) : told (setSimulatedLevel s level) = told s := by
  unfold setSimulatedLevel
  split <;> rfl

theorem fields_setSimulatedLevel (s : Input) (level : Level) :
    (setSimulatedLevel s level).edge = s.edge ∧ (setSimulatedLevel s level).level = level := by
  unfold setSimulatedLevel
  split <;> exact ⟨rfl, rfl⟩

theorem step_told {i : Action} (hs : step s i = some s') (hi : ∀ level, i ≠ .setSimulatedLevel level) :
    s'.edge = s.edge ∧ s'.level = s.level ∧ selected s' = selected s ∧
      ∃ new, told s' = told s ++ new ∧ (waiting s).Perm (new ++ waiting s') := by
  have hnothing : told s = told s ++ [] := (List.append_nil _).symm
  cases i with
  | setSimulatedLevel level => exact absurd rfl (hi level)
  | setEdgeCallback present =>
    cases hs
    unfold setEdgeCallback
    split <;> exact ⟨rfl, rfl, rfl, [], hnothing, List.Perm.refl _⟩
  | take n =>
    simp only [step] at hs
    split at hs
    · rename_i level hn
      cases hs
      have hbefore := (calls_perm hn).filterMap Progress.waiting
      have hafter := (calls_set hn (.taken s.edgeCallback level)).filterMap Progress.waiting
      exact ⟨rfl, rfl, rfl, [], hnothing, hbefore.trans hafter.symm⟩
    · cases hs
  | call n =>
    simp only [step] at hs
    split at hs
    · rename_i c level hn
      cases hs
      have hbefore := (calls_perm hn).filterMap Progress.waiting
      have hafter := (calls_set hn (.calling c)).filterMap Progress.waiting
      exact ⟨rfl, rfl, rfl, [level], List.map_append, hbefore.trans (hafter.symm.cons level)⟩
    · rename_i level hn
      cases hs
      exact ⟨rfl, rfl, rfl, [level], List.map_append, (calls_perm hn).filterMap Progress.waiting⟩
    · cases hs
  | «return» n =>
    simp only [step] at hs
    split at hs
    · rename_i c hn
      cases hs
      exact ⟨rfl, rfl, rfl, [], hnothing, (calls_perm hn).filterMap Progress.waiting⟩
    · cases hs

theorem counts_step (h : Counts s.shared (pointers s)) {i : Action} (hs : step s i = some s') :
    Counts s'.shared (pointers s') := by
  cases i with
  | setSimulatedLevel level =>
    cases hs
    unfold setSimulatedLevel
    split
    · have hheld : (s.calls ++ [Progress.matched level]).filterMap Progress.held = s.calls.filterMap Progress.held := by
        rw [List.filterMap_append]
        exact List.append_nil _
      unfold pointers
      rw [hheld]
      exact h
    · exact h
  | setEdgeCallback present =>
    cases hs
    unfold setEdgeCallback
    split
    · have hmade : Counts s.shared.make
          (s.edgeCallback.toList ++ s.shared.next :: s.calls.filterMap Progress.held) :=
        h.make.perm List.perm_middle.symm
      exact hmade.release
    · exact h.release
  | take n =>
    simp only [step] at hs
    split at hs
    · rename_i level hn
      cases hs
      have hbefore := (calls_perm hn).filterMap Progress.held
      have hafter := (calls_set hn (.taken s.edgeCallback level)).filterMap Progress.held
      have hcopied : Counts (s.shared.copy s.edgeCallback) (s.edgeCallback.toList ++ pointers s) :=
        h.copy fun d hd => List.mem_append_left _ (Option.mem_toList.mpr hd)
      refine hcopied.perm (List.Perm.append_left _ (List.Perm.trans ?_ hafter.symm))
      refine (hbefore.append_left s.edgeCallback.toList).trans ?_
      cases s.edgeCallback <;> exact List.Perm.refl _
    · cases hs
  | call n =>
    simp only [step] at hs
    split at hs
    · rename_i c level hn
      cases hs
      have hbefore := (calls_perm hn).filterMap Progress.held
      have hafter := (calls_set hn (.calling c)).filterMap Progress.held
      exact h.perm ((hbefore.trans hafter.symm).append_left _)
    · rename_i level hn
      cases hs
      exact h.perm (((calls_perm hn).filterMap Progress.held).append_left _)
    · cases hs
  | «return» n =>
    simp only [step] at hs
    split at hs
    · rename_i c hn
      cases hs
      have hbefore := ((calls_perm hn).filterMap Progress.held).append_left s.edgeCallback.toList
      have hpointers : Counts s.shared ((some c).toList ++
          (s.edgeCallback.toList ++ (s.calls.eraseIdx n).filterMap Progress.held)) :=
        h.perm (hbefore.trans List.perm_middle)
      exact hpointers.release
    · cases hs

end

/-- Every selected edge has been told or waits, no more and no less; callbacks without a pointer are
those destroyed. -/
structure Good (first : Level) (s : Input) : Prop where
  delivered : (told s ++ waiting s).Perm (selected s)
  balanced : s.edge = .both → ∀ level, Balanced level first s.level (selected s)
  counts : Counts s.shared (pointers s)

/-- No edge is set while another waits to be told. -/
def Unhurried (s : Input) : Action → Prop
  | .setSimulatedLevel _ => waiting s = []
  | _ => True

instance (s : Input) : DecidablePred (Unhurried s)
  | .setSimulatedLevel _ => inferInstanceAs (Decidable (_ = _))
  | .take _ | .call _ | .return _ | .setEdgeCallback _ => inferInstanceAs (Decidable True)

structure Ordered (s : Input) : Prop where
  told : told s ++ waiting s = selected s
  short : (waiting s).length ≤ 1

section
variable {first : Level} {s s' : Input} {i : Action}

theorem good_start (edge : Edge) (first : Level) : Good first (start edge first) where
  delivered := List.Perm.refl _
  balanced := fun _ _ => rfl
  counts := counts_nothing

theorem good_step (h : Good first s) (hs : step s i = some s') : Good first s' := by
  by_cases hi : ∀ level, i ≠ .setSimulatedLevel level
  · obtain ⟨hedge, hlevel, hselected, new, htold, hwaiting⟩ := step_told hs hi
    refine ⟨?_, ?_, counts_step h.counts hs⟩
    · rw [htold, hselected, List.append_assoc]
      exact (hwaiting.symm.append_left _).trans h.delivered
    · rw [hedge, hlevel, hselected]
      exact h.balanced
  · obtain ⟨level, hset⟩ := not_forall.mp hi
    obtain rfl := not_not.mp hset
    obtain rfl := Option.some.inj hs
    obtain ⟨hedge, hlevel⟩ := fields_setSimulatedLevel s level
    refine ⟨?_, fun hboth l => ?_, counts_step h.counts hs⟩
    · rw [told_setSimulatedLevel, waiting_setSimulatedLevel, selected_setSimulatedLevel, ← List.append_assoc]
      exact h.delivered.append_right _
    · rw [hedge] at hboth
      rw [selected_setSimulatedLevel, hlevel, added_both hboth]
      exact balanced_append (h.balanced hboth l)

theorem perm_short {l l' : List Level} (h : l.Perm l') (hl : l.length ≤ 1) : l = l' := by
  match l with
  | [] => exact h.nil_eq
  | [level] => exact (List.perm_singleton.mp h.symm).symm

theorem ordered_step (h : Ordered s) (hi : Unhurried s i) (hs : step s i = some s') : Ordered s' := by
  by_cases hother : ∀ level, i ≠ .setSimulatedLevel level
  · obtain ⟨-, -, hselected, new, htold, hwaiting⟩ := step_told hs hother
    have heq := perm_short hwaiting h.short
    have hshort := h.short
    rw [heq, List.length_append] at hshort
    refine ⟨?_, by omega⟩
    rw [htold, hselected, List.append_assoc, ← heq]
    exact h.told
  · obtain ⟨level, hset⟩ := not_forall.mp hother
    obtain rfl := not_not.mp hset
    obtain rfl := Option.some.inj hs
    have hnone : waiting s = [] := hi
    have hold := h.told
    rw [hnone, List.append_nil] at hold
    constructor
    · rw [told_setSimulatedLevel, waiting_setSimulatedLevel, selected_setSimulatedLevel, hnone,
        List.nil_append, hold]
    · rw [waiting_setSimulatedLevel, hnone]
      exact added_length s level

end

/-- What the callbacks of a pin are told, and which callbacks are left. -/
structure Delivered (first : Level) (s : Input) : Prop where
  once : (told s ++ waiting s).Perm (selected s)
  alive : ∀ c ∈ s.shared.destroyed, s.edgeCallback ≠ some c ∧ ∀ x ∈ s.calls, x.held ≠ some c
  destroyed : s.shared.destroyed.Nodup
  kept : ∀ c < s.shared.next, c ∉ s.shared.destroyed →
    s.edgeCallback = some c ∨ ∃ x ∈ s.calls, x.held = some c
  balanced : s.edge = .both → waiting s = [] → ∀ level, Balanced level first s.level (told s)

theorem edges_delivered (edge : Edge) (first : Level) {s : Input} :
    (Runs.Reached step (fun _ _ => True) (start edge first) s → Delivered first s) ∧
      (Runs.Reached step Unhurried (start edge first) s → told s ++ waiting s = selected s) := by
  refine ⟨fun hreached => ?_, fun hreached => ?_⟩
  · have h : Good first s := hreached.invariant (good_start edge first) fun _ _ _ h _ hs => good_step h hs
    refine ⟨h.delivered, fun c hc => ?_, h.counts.nodup, fun c hlt hc => ?_, fun hboth hnone level => ?_⟩
    · have hnot := ((h.counts.destroyed c).mp hc).2
      refine ⟨fun hset => hnot ?_, fun x hx hheld => hnot ?_⟩
      · exact List.mem_append_left _ (Option.mem_toList.mpr hset)
      · exact List.mem_append_right _ (List.mem_filterMap.mpr ⟨x, hx, hheld⟩)
    · have hpointer : c ∈ pointers s := by
        by_contra hnot
        exact hc ((h.counts.destroyed c).mpr ⟨hlt, hnot⟩)
      rcases List.mem_append.mp hpointer with hset | hheld
      · exact Or.inl (Option.mem_toList.mp hset)
      · exact Or.inr (List.mem_filterMap.mp hheld)
    · have hdelivered := h.delivered
      have hbalanced := h.balanced hboth level
      rw [hnone, List.append_nil] at hdelivered
      unfold Balanced at *
      rwa [hdelivered.count_eq, hdelivered.count_eq]
  · have hstart : Ordered (start edge first) := ⟨rfl, Nat.zero_le 1⟩
    exact (hreached.invariant hstart fun _ _ _ h hi hs => ordered_step h hi hs).told

/-- A callback is replaced while it runs, and told a rising edge after the falling one. -/
def overtaken : List Action :=
  [.setEdgeCallback true, .setSimulatedLevel .high, .setSimulatedLevel .low, .take 1, .call 1,
    .setEdgeCallback true, .take 0, .call 0, .return 1, .return 0]

theorem edges_delivered_overtaken : ∃ s : Input,
    s.heard = [(some 0, .low), (some 1, .high)] ∧ s.shared.destroyed = [0] ∧ Delivered .low s := by
  have hsome : (Runs.perform step (start .both .low) overtaken).isSome = true := by decide
  obtain ⟨s, hs⟩ := Option.isSome_iff_exists.mp hsome
  have hreached : Runs.Reached step (fun _ _ => True) (start .both .low) s :=
    Runs.reached_of_perform hs (Runs.performs_always (fun _ _ => trivial) _)
  have hvalues : (Runs.perform step (start .both .low) overtaken).map
      (fun s => (s.heard, s.shared.destroyed)) = some ([(some 0, .low), (some 1, .high)], [0]) := by decide
  rw [hs, Option.map_some, Option.some.injEq, Prod.mk.injEq] at hvalues
  exact ⟨s, hvalues.1, hvalues.2, (edges_delivered .both .low).1 hreached⟩

end SimPLCity.InputPins
