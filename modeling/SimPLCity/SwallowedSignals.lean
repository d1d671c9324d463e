import SimPLCity.FailingWaits

/-! Signals, and waits that cannot release their mutex. Such a wait leaves its waiter in the list
until it has the condition variable's mutex again. A signal that comes before that takes it for a
thread that waits, and those behind it sleep on. -/

namespace SimPLCity.SwallowedSignals
open FailingWaits ConditionObjects ThreadXObjects
open ConditionVariables hiding Action step

/-- `proper` is for the proofs only: the threads with a mutex of their own that waited in the list
when the last signal of a thread took the mutex. -/
structure Signals (μ σ : Type) where
  waits : Waits μ σ
  proper : ThreadId → List ThreadId := fun _ => []

section
variable {μ σ : Type} (o : Objects μ σ)

def start : Signals μ σ := { waits := FailingWaits.start o }

def properWaiters (s : Waits μ σ) : List ThreadId := s.state.queue.filter fun w => !s.improper w

def step (s : Signals μ σ) (i : Action) : Option (Signals μ σ) :=
  (FailingWaits.step o s.waits i).map fun next =>
    { waits := next
      proper := fun t =>
        if i = .run (.wake t) ∧ s.waits.state.place t = .wakeEnter false then properWaiters s.waits
        else s.proper t }

end

abbrev OwnedSignals := Signals (Option ThreadId) Nat

/-- A signal that found a thread with a mutex of its own has removed such a thread, and only that
one. It puts the thread's semaphore, the thread takes its token, and its wait returns 0 unless it
cannot lock its mutex again. -/
structure Heard (s : OwnedSignals) : Prop where
  signal : ∀ t found done, s.waits.state.place t = .wakeLeave false found done → s.proper t ≠ [] →
    ∃ w ∈ s.proper t, done = [w]
  post : ∀ t found done w, s.waits.state.place t = .post false found done w → s.proper t ≠ [] →
    w ∈ s.proper t ∧ s.waits.improper w = false ∧ s.waits.state.removed w = true ∧
      s.waits.state.semaphore w = some 0
  token : ∀ w, s.waits.improper w = false → Wakeups.waits (s.waits.state.place w) = true →
    s.waits.state.removed w = true →
    s.waits.state.semaphore w = some 1 ∨
      s.waits.state.semaphore w = some 0 ∧ Wakeups.posted s.waits.state = some w
  outcome : ∀ w status, s.waits.improper w = false →
    Wakeups.outcome (s.waits.state.place w) = some status →
    (status = 0 ↔ s.waits.state.removed w = true)
  returned : ∀ w code relocked, s.waits.improper w = false →
    s.waits.state.place w = .returned code relocked →
    (code = 0 ↔ s.waits.state.removed w = true ∧ relocked = true)

/-- A signal that takes the mutex does not find the waiter of a failed wait in front of another
thread's that has not failed. -/
def Clear {μ σ : Type} (s : Signals μ σ) : Action → Prop
  | .run (.wake t) => s.waits.state.place t = .wakeEnter false →
    ∀ w rest, s.waits.state.queue = w :: rest →
      Wakeups.backsOut (s.waits.state.place w) = true →
      ∀ u ∈ rest, Wakeups.backsOut (s.waits.state.place u) = true
  | _ => True

section
variable {s s' : OwnedWaits} {a : Owned} {t u w : ThreadId} {p : Place} {i : Action}

/-- Not where a signal has found a list of waiters. -/
def calm : Place → Bool
  | .wake false _ _ | .post false _ _ _ | .wakeLeave false _ _ => false
  | _ => true

theorem calm_wait {x x' : Owned} (hs : conditionWaitCommon owners x t = some x') :
    calm (x'.place t) = true := by
  unfold conditionWaitCommon at hs
  cases hp : x.place t <;> simp only [hp] at hs
  case enter | sleep | recheck | relock =>
    obtain ⟨_, -, rfl⟩ := Option.map_eq_some_iff.mp hs
    simp [State.go, calm]
  case unlock | settle =>
    split at hs <;> (try split at hs) <;> cases hs <;> simp [State.go, calm]
  case leave unlocked =>
    cases hs
    cases unlocked <;> simp [State.go, calm]
  case destroy status unlocked =>
    cases hs
    cases unlocked <;> simp [State.go, calm]
  all_goals cases hs <;> simp [State.go, calm]

theorem place_step (hs : FailingWaits.step owners s i = some s') (hi : i ≠ .run (.wake t)) :
    s'.state.place t = s.state.place t ∨ calm (s'.state.place t) = true := by
  have hgo : ∀ {u : ThreadId} {q : Place}, calm q = true →
      Function.update s.state.place u q t = s.state.place t ∨
        calm (Function.update s.state.place u q t) = true := by
    intro u q hq
    by_cases hu : t = u
    · subst hu
      exact Or.inr (by simpa using hq)
    · exact Or.inl (Function.update_of_ne hu ..)
  cases i with
  | callImproper u m timed =>
    obtain ⟨next, hnext, rfl⟩ := Option.map_eq_some_iff.mp hs
    unfold callImproper at hnext
    split at hnext <;> cases hnext
    exact hgo rfl
  | run i =>
    obtain ⟨next, hnext, rfl⟩ := Option.map_eq_some_iff.mp hs
    cases i with
    | callWait u m timed =>
      simp only [ConditionVariables.step, callWait] at hnext
      split at hnext <;> cases hnext
      exact hgo rfl
    | wait u =>
      by_cases hu : t = u
      · subst hu
        exact Or.inr (calm_wait hnext)
      · exact Or.inl ((moved_wait hnext).place t hu)
    | createFails u =>
      simp only [ConditionVariables.step, createFails] at hnext
      split at hnext <;> cases hnext
      exact hgo rfl
    | sleepFails u aborted =>
      simp only [ConditionVariables.step, sleepFails] at hnext
      split at hnext <;> cases hnext
      exact hgo rfl
    | relockFails u code =>
      simp only [ConditionVariables.step, relockFails] at hnext
      split at hnext <;> (try split at hnext) <;> cases hnext
      exact hgo rfl
    | callWake u all =>
      simp only [ConditionVariables.step, callWake] at hnext
      split at hnext <;> cases hnext
      exact hgo rfl
    | wake u =>
      have hu : t ≠ u := by
        rintro rfl
        exact hi rfl
      refine Or.inl ?_
      simp only [ConditionVariables.step, conditionWake] at hnext
      split at hnext
      · obtain ⟨_, -, rfl⟩ := Option.map_eq_some_iff.mp hnext
        exact Function.update_of_ne hu ..
      · split at hnext <;> cases hnext <;> exact Function.update_of_ne hu ..
      · obtain ⟨n, -, rfl⟩ := Option.map_eq_some_iff.mp hnext
        exact Function.update_of_ne hu ..
      · cases hnext
        exact Function.update_of_ne hu ..
      · cases hnext
    | userLock u m =>
      simp only [ConditionVariables.step, userLock] at hnext
      split at hnext
      · obtain ⟨_, -, rfl⟩ := Option.map_eq_some_iff.mp hnext
        exact Or.inl rfl
      · cases hnext
    | userUnlock u m =>
      simp only [ConditionVariables.step, userUnlock] at hnext
      split at hnext <;> cases hnext
      exact Or.inl rfl

theorem improper_step (hs : FailingWaits.step owners s i = some s') (hw : (s.state.place w).isUser = false) :
    s'.improper w = s.improper w := by
  have hother : ∀ {t} {b : Bool}, (s.state.place t).isUser = true →
      Function.update s.improper t b w = s.improper w := by
    intro t b ht
    refine Function.update_of_ne ?_ ..
    rintro rfl
    simp [hw] at ht
  cases i with
  | callImproper t m timed =>
    obtain ⟨next, hnext, rfl⟩ := Option.map_eq_some_iff.mp hs
    unfold callImproper at hnext
    split at hnext <;> cases hnext
    rename_i hguard
    simp only [Bool.and_eq_true] at hguard
    exact hother hguard.1
  | run i =>
    obtain ⟨next, hnext, rfl⟩ := Option.map_eq_some_iff.mp hs
    cases i with
    | callWait t m timed =>
      simp only [ConditionVariables.step, callWait] at hnext
      split at hnext <;> cases hnext
      rename_i hguard
      simp only [Bool.and_eq_true] at hguard
      exact hother hguard.1
    | callWake t all =>
      simp only [ConditionVariables.step, callWake] at hnext
      split at hnext <;> cases hnext
      rename_i huser
      exact hother huser
    | _ => rfl

theorem queued_inWait (hf : Follows s a) (hg : Wakeups.Good a) (hw : w ∈ s.state.queue) :
    Wakeups.waits (s.state.place w) = true := by
  rw [← hf.queue] at hw
  rw [← (hf.alike w).waits]
  exact ((hg.fits w).queued.mp hw).1

theorem user_of_queued (hf : Follows s a) (hg : Wakeups.Good a) (hw : w ∈ s.state.queue) :
    (s.state.place w).isUser = false :=
  (Wakeups.inWait_of_waits (queued_inWait hf hg hw)).2.2.2

theorem improper_backsOut (hf : Follows s a) (hg : Wakeups.Good a) (hm : s.state.mutex = none)
    (hw : w ∈ s.state.queue) (hi : s.improper w = true) :
    Wakeups.backsOut (s.state.place w) = true := by
  have hwaits := queued_inWait hf hg hw
  obtain ⟨htwin, -⟩ := (hf.alike w).twin hi
  have hholds : holds (a.place w) = false := by
    by_contra hholds
    have hmutex := (hg.fits w).mutex.mpr (by simpa using hholds)
    rw [hf.mutex, hm] at hmutex
    cases hmutex
  cases hp : s.state.place w <;> simp_all [Twin, Wakeups.waits, holds, Wakeups.backsOut]

theorem proper_not_backsOut (hf : Follows s a) (hg : Wakeups.Good a) (hi : s.improper w = false) :
    Wakeups.backsOut (s.state.place w) = false := by
  rw [← ((hf.alike w).same hi).1]
  exact (hg.fits w).unlocked

theorem same_place (hf : Follows s a) (hp : s.state.place t = p) (hq : ∀ q, ¬ Twin p q) :
    a.place t = p := by
  subst hp
  exact ((hf.alike t).same (hf.waking hq)).1

theorem target_waits (hf : Follows s a) (hg : Wakeups.Good a) {all : Bool} {found done : List ThreadId}
    (hp : s.state.place t = .post all found done w) :
    Wakeups.posted a = some w ∧ Wakeups.waits (s.state.place w) = true := by
  obtain ⟨hposted, hwaits⟩ := hg.target_waits (same_place hf hp fun _ => id)
  exact ⟨hposted, (hf.alike w).waits ▸ hwaits⟩

theorem target_removed (hf : Follows s a) (hg : Wakeups.Good a) {all : Bool}
    {found done : List ThreadId} (hp : s.state.place t = .post all found done w) :
    s.state.removed w = true ∧ s.state.semaphore w = some 0 := by
  obtain ⟨hposted, hwaits⟩ := target_waits hf hg hp
  rw [← (hf.alike w).waits] at hwaits
  obtain ⟨hin, hout, -, -⟩ := Wakeups.inWait_of_waits hwaits
  have hsome := (hg.fits w).semaphore
  have htoken := (hg.fits w).token hin
  rw [hin] at hsome
  obtain ⟨n, hn⟩ := Option.isSome_iff_exists.mp hsome
  rw [hn, hout, if_pos hposted] at htoken
  have hremoved := Bool.toNat_le (a.removed w)
  obtain rfl : n = 0 := by
    simp at htoken
    omega
  refine ⟨?_, (hf.semaphore hwaits).symm.trans hn⟩
  rw [← hf.removed]
  simpa using htoken.symm

theorem found_waiters (hf : Follows s a) (hg : Wakeups.Good a) {found done : List ThreadId}
    (hp : s.state.place t = .wake false found done) : found = s.state.queue ∧ done = [] := by
  have hwaking := hg.waking t
  rw [same_place hf hp (fun _ => id)] at hwaking
  obtain ⟨hfound, hdone⟩ := hwaking
  exact ⟨by rw [hfound, hdone rfl, List.nil_append, hf.queue], hdone rfl⟩

end

section
variable {s s' : OwnedSignals} {a : Owned} {t w : ThreadId} {p : Place} {i : Action}

/-- What a signal has to do with the threads that waited when it took the mutex. -/
def Chosen (s : OwnedSignals) (t : ThreadId) : Place → Prop
  | .wake false found _ => s.proper t ≠ [] →
    ∃ w, found.head? = some w ∧ w ∈ s.proper t ∧ s.waits.improper w = false
  | .post false _ _ w => s.proper t ≠ [] → w ∈ s.proper t ∧ s.waits.improper w = false
  | .wakeLeave false _ done => s.proper t ≠ [] → ∃ w ∈ s.proper t, done = [w]
  | _ => True

theorem chosen_calm (h : calm p = true) : Chosen s t p := by
  unfold Chosen
  split
  · cases h
  · cases h
  · cases h
  · trivial

theorem proper_other (hs : step owners s i = some s') (hi : i ≠ .run (.wake t)) :
    s'.proper t = s.proper t := by
  obtain ⟨next, -, rfl⟩ := Option.map_eq_some_iff.mp hs
  exact if_neg fun h => hi h.1

theorem chosen_other (hf : Follows s.waits a) (hg : Wakeups.Good a) (hs : step owners s i = some s')
    (hi : i ≠ .run (.wake t)) (h : Chosen s t (s.waits.state.place t)) :
    Chosen s' t (s'.waits.state.place t) := by
  have hproper := proper_other hs hi
  obtain ⟨next, hnext, rfl⟩ := Option.map_eq_some_iff.mp hs
  rcases place_step hnext hi with hplace | hcalm
  · generalize hs' : (⟨next, _⟩ : OwnedSignals) = s' at hproper ⊢
    have hwaits : s'.waits = next := by rw [← hs']
    rw [hwaits, hplace]
    cases hp : s.waits.state.place t <;> try exact chosen_calm rfl
    case wake all found done =>
      cases all with
      | true => exact chosen_calm rfl
      | false =>
        rw [hp] at h
        intro hne
        rw [hproper] at hne
        obtain ⟨w, hfound, hw, himproper⟩ := h hne
        refine ⟨w, hfound, hproper ▸ hw, ?_⟩
        have hmem : w ∈ s.waits.state.queue :=
          (found_waiters hf hg hp).1 ▸ List.mem_of_mem_head? hfound
        rw [hwaits]
        exact (improper_step hnext (user_of_queued hf hg hmem)).trans himproper
    case post all found done w =>
      cases all with
      | true => exact chosen_calm rfl
      | false =>
        rw [hp] at h
        intro hne
        rw [hproper] at hne
        obtain ⟨hw, himproper⟩ := h hne
        refine ⟨hproper ▸ hw, ?_⟩
        rw [hwaits]
        exact (improper_step hnext (Wakeups.inWait_of_waits (target_waits hf hg hp).2).2.2.2).trans himproper
    case wakeLeave all found done =>
      cases all with
      | true => exact chosen_calm rfl
      | false =>
        rw [hp] at h
        intro hne
        rw [hproper] at hne ⊢
        exact h hne
  · exact chosen_calm hcalm

theorem first_proper (hf : Follows s.waits a) (hg : Wakeups.Good a) (hc : Clear s (.run (.wake t)))
    (hp : s.waits.state.place t = .wakeEnter false) (hm : s.waits.state.mutex = none)
    (hne : properWaiters s.waits ≠ []) :
    ∃ w, s.waits.state.queue.head? = some w ∧ w ∈ properWaiters s.waits ∧
      s.waits.improper w = false := by
  obtain ⟨v, hv⟩ := List.exists_mem_of_ne_nil _ hne
  obtain ⟨hv, hproper⟩ := List.mem_filter.mp hv
  cases hqueue : s.waits.state.queue with
  | nil => simp [hqueue] at hv
  | cons w rest =>
    have hmem : w ∈ s.waits.state.queue := by simp [hqueue]
    cases hi : s.waits.improper w with
    | false => exact ⟨w, rfl, List.mem_filter.mpr ⟨hmem, by simp [hi]⟩, hi⟩
    | true =>
      have hback := hc hp w rest hqueue (improper_backsOut hf hg hm hmem hi)
      have hrest : v ∈ rest := by
        rw [hqueue] at hv
        refine (List.mem_cons.mp hv).resolve_left ?_
        rintro rfl
        simp [hi] at hproper
      have hv := proper_not_backsOut hf hg (by simpa using hproper)
      rw [hback v hrest] at hv
      cases hv

theorem chosen_wake (hf : Follows s.waits a) (hg : Wakeups.Good a) (hc : Clear s (.run (.wake t)))
    (hs : step owners s (.run (.wake t)) = some s') (h : Chosen s t (s.waits.state.place t)) :
    Chosen s' t (s'.waits.state.place t) := by
  obtain ⟨_, hwaits, rfl⟩ := Option.map_eq_some_iff.mp hs
  obtain ⟨next, hnext, rfl⟩ := Option.map_eq_some_iff.mp hwaits
  clear hwaits
  simp only [ConditionVariables.step, conditionWake] at hnext
  cases hp : s.waits.state.place t <;> simp only [hp] at hnext ⊢ <;> try cases hnext
  case wakeEnter all =>
    obtain ⟨_, hget, rfl⟩ := Option.map_eq_some_iff.mp hnext
    obtain ⟨hm, -⟩ := owners_get hget
    cases all with
    | true => exact chosen_calm (by simp [State.go, calm])
    | false =>
      simp only [State.go, Function.update_self, Chosen, hp]
      simpa only [and_self, if_true] using first_proper hf hg hc hp hm
  case wake all found done =>
    cases all with
    | true => split at hnext <;> cases hnext <;> exact chosen_calm (by simp [State.go, calm])
    | false =>
      rw [hp] at h
      obtain ⟨rfl, rfl⟩ := found_waiters hf hg hp
      have hfirst := hf.queue ▸ hf.links ▸ hg.represents.first
      split at hnext <;> cases hnext
      · rename_i w hw
        simp only [State.go, Function.update_self, Chosen, hp]
        intro hne
        obtain ⟨v, hv, hmem, hproper⟩ := h hne
        obtain rfl : v = w := Option.some.inj (hv.symm.trans (hfirst.symm.trans hw))
        exact ⟨hmem, hproper⟩
      · rename_i hw
        simp only [State.go, Function.update_self, Chosen, hp]
        intro hne
        obtain ⟨v, hv, -⟩ := h hne
        rw [← hfirst, hw] at hv
        cases hv
  case post all found done w =>
    obtain ⟨n, -, rfl⟩ := Option.map_eq_some_iff.mp hnext
    cases all with
    | true => exact chosen_calm (by simp [State.go, State.setSemaphore, calm])
    | false =>
      rw [hp] at h
      have hwaking := hg.waking t
      rw [same_place hf hp (fun _ => id)] at hwaking
      simp only [State.go, Function.update_self, Chosen, hwaking.2 rfl, List.nil_append,
        Bool.false_eq_true, if_false]
      simp only [hp, reduceCtorEq, and_false, if_false]
      exact fun hne => ⟨w, (h hne).1, rfl⟩
  case wakeLeave all found done => exact chosen_calm (by simp [State.go, calm])

structure Good (s : OwnedSignals) : Prop where
  follows : ∃ a, Follows s.waits a ∧ Wakeups.Good a
  chosen : ∀ t, Chosen s t (s.waits.state.place t)

theorem good_start : Good (start owners) :=
  ⟨⟨initial owners, follows_start, Wakeups.good_initial⟩, fun _ => trivial⟩

theorem good_step (hg : Good s) (hc : Clear s i) (hs : step owners s i = some s') : Good s' := by
  obtain ⟨a, hfollows, hgood⟩ := hg.follows
  constructor
  · obtain ⟨next, hnext, rfl⟩ := Option.map_eq_some_iff.mp hs
    obtain ⟨a', hsteps, hfollows'⟩ := follows_step hfollows hgood hnext
    exact ⟨a', hfollows', good_steps hsteps hgood⟩
  · intro t
    by_cases hi : i = .run (.wake t)
    · subst hi
      exact chosen_wake hfollows hgood hc hs (hg.chosen t)
    · exact chosen_other hfollows hgood hs hi (hg.chosen t)

theorem Good.heard (hg : Good s) : Heard s := by
  obtain ⟨a, hfollows, hgood⟩ := hg.follows
  exact {
    signal := fun t found done hp => by
      have h := hg.chosen t
      rw [hp] at h
      exact h
    post := fun t found done w hp hne => by
      have h := hg.chosen t
      rw [hp] at h
      obtain ⟨hw, hproper⟩ := h hne
      exact ⟨hw, hproper, target_removed hfollows hgood hp⟩
    token := fun w _ => (hfollows.intact hgood).token w
    outcome := fun w status hi hout => by
      rw [← ((hfollows.alike w).same hi).1] at hout
      rw [← hfollows.removed]
      exact (hgood.fits w).decided status hout
    returned := (hfollows.intact hgood).proper }

end

instance {μ σ : Type} (s : Signals μ σ) : (i : Action) → Decidable (Clear s i)
  | .run (.wake t) =>
    have : Decidable (∀ w rest, s.waits.state.queue = w :: rest →
        Wakeups.backsOut (s.waits.state.place w) = true →
        ∀ u ∈ rest, Wakeups.backsOut (s.waits.state.place u) = true) := front s.waits.state.queue
    inferInstanceAs (Decidable (_ → _))
  | .callImproper .. | .run (.callWait ..) | .run (.wait _) | .run (.createFails _)
  | .run (.sleepFails ..) | .run (.relockFails ..) | .run (.callWake ..) | .run (.userLock ..)
  | .run (.userUnlock ..) => isTrue trivial
where
  front : (queue : List ThreadId) → Decidable (∀ w rest, queue = w :: rest →
      Wakeups.backsOut (s.waits.state.place w) = true →
      ∀ u ∈ rest, Wakeups.backsOut (s.waits.state.place u) = true)
    | [] => isTrue nofun
    | w :: rest => decidable_of_iff (Wakeups.backsOut (s.waits.state.place w) = true →
        ∀ u ∈ rest, Wakeups.backsOut (s.waits.state.place u) = true)
        ⟨fun h _ _ heq => by cases heq; exact h, fun h => h w rest rfl⟩

section
variable {μ σ : Type} (k : MutexKind ThreadId μ) (c : SemaphoreKind ThreadId σ)

def seenSignals (s : Signals μ σ) : OwnedSignals where
  waits := seenWaits k c s.waits
  proper := s.proper

variable {k c} {s s' : Signals μ σ} {i : Action}

@[simp] theorem seenSignals_proper : (seenSignals k c s).proper = s.proper := rfl

theorem seenSignals_start : seenSignals k c (start (objects k c)) = start owners := by
  rw [seenSignals, start, seenWaits_start]
  rfl

theorem seenSignals_step (h : Plain k c s.waits.state) (hlocked : Locked k s.waits.state)
    (hs : step (objects k c) s i = some s') :
    step owners (seenSignals k c s) i = some (seenSignals k c s') ∧ Plain k c s'.waits.state := by
  obtain ⟨next, hnext, rfl⟩ := Option.map_eq_some_iff.mp hs
  obtain ⟨hseen, hplain⟩ := seenWaits_step h hlocked hnext
  exact ⟨Option.map_eq_some_iff.mpr ⟨_, hseen, rfl⟩, hplain⟩

/-- With any mutexes and semaphores that obey ThreadX's laws. -/
theorem signals_heard (h : Runs.Reached (step (objects k c)) Clear (start (objects k c)) s) :
    Heard (seenSignals k c s) := by
  have hgood : Plain k c s.waits.state ∧ Good (seenSignals k c s) := by
    refine h.invariant (P := fun s => Plain k c s.waits.state ∧ Good (seenSignals k c s))
      ⟨plain_initial, seenSignals_start ▸ good_start⟩ fun s s' i ⟨hplain, hgood⟩ hc hs => ?_
    obtain ⟨a, hfollows, ha⟩ := hgood.follows
    obtain ⟨hseen, hplain'⟩ := seenSignals_step hplain (Follows.locked hfollows ha) hs
    exact ⟨hplain', good_step hgood hc hseen⟩
  exact hgood.2.heard

end

/-! Thread 0 has mutex 0. Threads 1 and 3 wait, thread 1 with that mutex and thread 3 with one of
its own, and thread 2 signals before thread 1 has taken its waiter out of the list again. -/

def waitsProperly : List Action :=
  [.run (.userLock 3 1), .run (.callWait 3 1 false), .run (.wait 3), .run (.wait 3), .run (.wait 3),
    .run (.wait 3), .run (.wait 3)]

def waitsImproperly : List Action :=
  [.run (.userLock 0 0), .callImproper 1 0 false, .run (.wait 1), .run (.wait 1), .run (.wait 1),
    .run (.wait 1), .run (.wait 1)]

def signals : List Action :=
  [.run (.callWake 2 false), .run (.wake 2), .run (.wake 2), .run (.wake 2)]

/-- Thread 2 leaves, and thread 1 takes its waiter out and returns. -/
def backsOut : List Action :=
  [.run (.wake 2), .run (.wait 1), .run (.wait 1), .run (.wait 1), .run (.wait 1)]

def signalsBehind : List Action := waitsProperly ++ waitsImproperly ++ signals

def signalsInFront : List Action := waitsImproperly ++ waitsProperly ++ signals

theorem signals_heard_inFront : ∃ s, Runs.Reached (step threadx) Clear (start threadx) s ∧
    s.waits.state.place 2 = .wakeLeave false [3, 1] [3] ∧ s.proper 2 = [3] ∧
    Heard (seenSignals (mutexes ThreadId) (semaphores ThreadId) s) := by
  have hsome : (Runs.perform (step threadx) (start threadx) signalsBehind).map
      (fun s => (s.waits.state.place 2, s.proper 2)) = some (.wakeLeave false [3, 1] [3], [3]) := by
    decide +kernel
  obtain ⟨s, hs, hend⟩ := Option.map_eq_some_iff.mp hsome
  have hclear : Runs.Performs (step threadx) Clear (start threadx) signalsBehind := by
    decide +kernel
  have hreached := Runs.reached_of_perform hs hclear
  rw [Prod.mk.injEq] at hend
  exact ⟨s, hreached, hend.1, hend.2, signals_heard hreached⟩

theorem signal_swallowed :
    ∃ s s', Runs.perform (step threadx) (start threadx) signalsInFront = some s ∧
      s.waits.state.place 2 = .wakeLeave false [1, 3] [1] ∧ s.proper 2 = [3] ∧
      ¬ Heard (seenSignals (mutexes ThreadId) (semaphores ThreadId) s) ∧
      Runs.perform (step threadx) (start threadx) (signalsInFront ++ backsOut) = some s' ∧
      s'.waits.state.place 1 = .returned eperm false ∧ s'.waits.state.removed 1 = true ∧
      s'.waits.state.place 3 = .sleep ∧ s'.waits.state.semaphore 3 = some { count := 0 } := by
  have hsome : (Runs.perform (step threadx) (start threadx) signalsInFront).map
      (fun s => (s.waits.state.place 2, s.proper 2)) = some (.wakeLeave false [1, 3] [1], [3]) := by
    decide +kernel
  have hreturns : (Runs.perform (step threadx) (start threadx) (signalsInFront ++ backsOut)).map
      (fun s => (s.waits.state.place 1, s.waits.state.removed 1, s.waits.state.place 3,
        s.waits.state.semaphore 3)) = some (.returned eperm false, true, .sleep, some { count := 0 }) := by
    decide +kernel
  obtain ⟨s, hs, hend⟩ := Option.map_eq_some_iff.mp hsome
  obtain ⟨s', hs', hend'⟩ := Option.map_eq_some_iff.mp hreturns
  simp only [Prod.mk.injEq] at hend hend'
  obtain ⟨hplace, hproper⟩ := hend
  refine ⟨s, s', hs, hplace, hproper, fun hheard => ?_, hs', hend'⟩
  obtain ⟨w, hw, hdone⟩ := hheard.signal 2 [1, 3] [1] hplace (by simp [hproper])
  rw [seenSignals_proper, hproper] at hw
  obtain rfl := List.mem_singleton.mp hw
  simp at hdone

end SimPLCity.SwallowedSignals
