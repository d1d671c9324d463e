import SimPLCity.StaticGuards
import SimPLCity.Runs
import Mathlib.Data.List.Nodup

/-! Function-local statics are initialized once. The thread that owns the recursive mutex is the
only one with open initializers, and the two bytes of a guard are what it takes its phase to be. -/

namespace SimPLCity.StaticInitialization
open OneTime StaticGuards

variable {τ γ : Type*}

/-- Inside the acquire, with the mutex. -/
def acquiring : Place γ → Bool
  | .locked _ | .progress _ | .mark _ | .leave _ | .fatal _ => true
  | _ => false

/-- Behind an initializer whose share of the mutex has not been given back yet. -/
def closing : Place γ → Bool
  | .release _ | .publish _ | .abort _ | .unlock => true
  | _ => false

/-- The guard whose bytes are about to be set. -/
def ending : Place γ → Option γ
  | .release g | .publish g | .abort g => some g
  | _ => none

/-- The guard whose first byte was found to be 0 with the mutex. -/
def checked : Place γ → Option γ
  | .progress g | .mark g => some g
  | _ => none

/-- The guard that an acquire is testing. -/
def entering : Place γ → Option γ
  | .acquire g | .lock g | .locked g | .progress g => some g
  | _ => none

/-- The way of an acquire to the recursive initialization. -/
def reentry : Place γ → Place γ
  | .acquire g => .lock g
  | .lock g => .locked g
  | .locked g => .progress g
  | .progress g => .fatal g
  | p => p

/-- The initializers that a thread has open: those it is running, and the one that has ended but
whose release or abort has not returned. -/
def openInitializers (s : State τ γ) (t : τ) : Nat :=
  (s.initializers t).length + (closing (s.place t)).toNat

structure Fits (s : State τ γ) (t : τ) : Prop where
  other : s.owner ≠ some t → s.initializers t = [] ∧ acquiring (s.place t) = false ∧
    closing (s.place t) = false
  counted : s.owner = some t → s.count = openInitializers s t + (acquiring (s.place t)).toNat
  nodup : (s.initializers t).Nodup
  fresh : ∀ g, checked (s.place t) = some g → s.initialized g = false
  unmarked : ∀ g, s.place t = .mark g → s.inProgress g = false
  passing : ∀ g, s.place t = .leave g → s.initialized g = true
  reentered : ∀ g, s.place t = .fatal g → g ∈ s.initializers t

/-- The bytes and the phase of a guard, seen from the thread with the mutex, which is at `p` and
runs the initializers `gs`. -/
inductive Status (t : τ) (gs : List γ) (p : Place γ) (g : γ) : Bool → Bool → Phase τ → Prop
  | running (h : g ∈ gs) (hp : ending p ≠ some g) : Status t gs p g false true (.running t)
  | released (h : g ∉ gs) (hp : p = .release g) : Status t gs p g false true .done
  | published (h : g ∉ gs) (hp : p = .publish g) : Status t gs p g false false .done
  | aborted (h : g ∉ gs) (hp : p = .abort g) : Status t gs p g false true .idle
  | settled (b : Bool) (h : g ∉ gs) (hp : ending p ≠ some g) :
      Status t gs p g b false (if b then .done else .idle)

structure Sound [DecidableEq τ] [DecidableEq γ] (s : State τ γ) : Prop where
  fits : ∀ t, Fits s t
  free : s.owner = none → s.count = 0
  guards : ∀ g, ∃ ph, follow g s.trace = some ph ∧ ∀ t, s.owner = none ∨ s.owner = some t →
    Status t (s.initializers t) (s.place t) g (s.initialized g) (s.inProgress g) ph

section
variable {s s' : State τ γ} {t u : τ} {p q : Place γ} {gs gs' : List γ} {g : γ} {b c : Bool}
  {ph : Phase τ}

theorem Fits.outside (howner : s.owner ≠ some t) (hgs : s.initializers t = [])
    (ha : acquiring (s.place t) = false) (hc : closing (s.place t) = false) : Fits s t where
  other := fun _ => ⟨hgs, ha, hc⟩
  counted := fun h => absurd h howner
  nodup := hgs ▸ List.nodup_nil
  fresh := fun g hg => by
    cases hp : s.place t <;> simp_all [checked, acquiring]
  unmarked := fun g hg => by simp [hg, acquiring] at ha
  passing := fun g hg => by simp [hg, acquiring] at ha
  reentered := fun g hg => by simp [hg, acquiring] at ha

theorem Fits.owns (h : Fits s t)
    (hp : s.initializers t ≠ [] ∨ acquiring (s.place t) = true ∨ closing (s.place t) = true) :
    s.owner = some t := by
  by_contra hne
  obtain ⟨hgs, ha, hc⟩ := h.other hne
  simp [hgs, ha, hc] at hp

theorem Fits.count_of_lock (h : Fits s u) (hfree : s.owner = none → s.count = 0)
    (hs : s.owner = none ∨ s.owner = some u) :
    s.count = openInitializers s u + (acquiring (s.place u)).toNat := by
  rcases hs with hs | hs
  · obtain ⟨hgs, ha, hc⟩ := h.other (by simp [hs])
    simp [hfree hs, openInitializers, hgs, ha, hc]
  · exact h.counted hs

theorem ending_none (hp : closing p = false) : ending p = none := by
  cases p <;> simp_all [closing, ending]

theorem Status.other (h : Status t gs p g b c ph) (hgs : g ∈ gs' ↔ g ∈ gs)
    (hp : ending p ≠ some g) (hq : ending q ≠ some g) : Status t gs' q g b c ph := by
  cases h with
  | running h _ => exact .running (hgs.mpr h) hq
  | released _ h => exact absurd (h ▸ rfl) hp
  | published _ h => exact absurd (h ▸ rfl) hp
  | aborted _ h => exact absurd (h ▸ rfl) hp
  | settled b h _ => exact .settled b (fun hg => h (hgs.mp hg)) hq

theorem Status.release (h : Status t gs (.release g) g b c ph) :
    Status t gs (.publish g) g b false ph := by
  cases h with
  | released hg _ => exact .published hg rfl
  | published _ hp => cases hp
  | aborted _ hp => cases hp
  | running _ hp => exact absurd rfl hp
  | settled _ _ hp => exact absurd rfl hp

theorem Status.publish (h : Status t gs (.publish g) g b c ph) :
    Status t gs .unlock g true c ph := by
  cases h with
  | published hg _ => exact .settled true hg (by simp [ending])
  | released _ hp => cases hp
  | aborted _ hp => cases hp
  | running _ hp => exact absurd rfl hp
  | settled _ _ hp => exact absurd rfl hp

theorem Status.abort (h : Status t gs (.abort g) g b c ph) :
    Status t gs .unlock g b false ph := by
  cases h with
  | aborted hg _ => exact .settled false hg (by simp [ending])
  | released _ hp => cases hp
  | published _ hp => cases hp
  | running _ hp => exact absurd rfl hp
  | settled _ _ hp => exact absurd rfl hp

theorem Status.transfer (h : Status u [] p g b c ph) (hp : closing p = false)
    (hq : closing q = false) : Status t [] q g b c ph := by
  cases h with
  | running h _ => cases h
  | released _ h => cases h ▸ hp
  | published _ h => cases h ▸ hp
  | aborted _ h => cases h ▸ hp
  | settled b _ _ => exact .settled b List.not_mem_nil (by simp [ending_none hq])

theorem put_owned [DecidableEq τ] (ho : s.owner = some u) :
    ∃ s', txMutexPut s u = some s' ∧ s'.trace = s.trace := ⟨_, if_pos ho, rfl⟩

variable [DecidableEq τ] [DecidableEq γ]

theorem Sound.status (h : Sound s) (g : γ) (hu : s.owner = none ∨ s.owner = some u) :
    ∃ ph, follow g s.trace = some ph ∧
      Status u (s.initializers u) (s.place u) g (s.initialized g) (s.inProgress g) ph := by
  obtain ⟨ph, hph, hstatus⟩ := h.guards g
  exact ⟨ph, hph, hstatus u hu⟩

theorem Sound.done (h : Sound s) (u : τ) (hg : s.initialized g = true) :
    follow g s.trace = some .done := by
  obtain ⟨t, ht⟩ : ∃ t, s.owner = none ∨ s.owner = some t := by
    cases s.owner with
    | none => exact ⟨u, Or.inl rfl⟩
    | some t => exact ⟨t, Or.inr rfl⟩
  obtain ⟨ph, hph, hstatus⟩ := h.status g ht
  rw [hg] at hstatus
  generalize s.inProgress g = c at hstatus
  cases hstatus
  exact hph

theorem Sound.alone (h : Sound s) (howner : s'.owner = s.owner) (hcount : s'.count = s.count)
    (hinitialized : s'.initialized = s.initialized) (hprogress : s'.inProgress = s.inProgress)
    (hinitializers : s'.initializers = s.initializers) (hplace : ∀ t, t ≠ u → s'.place t = s.place t)
    (htrace : ∀ g ph, follow g s.trace = some ph → follow g s'.trace = some ph)
    (hp : acquiring (s.place u) = false) (hc : closing (s.place u) = false)
    (hp' : acquiring (s'.place u) = false) (hc' : closing (s'.place u) = false) : Sound s' := by
  refine ⟨fun t => ?_, fun ho => ?_, fun g => ?_⟩
  · have ht := h.fits t
    by_cases htu : t = u
    · subst htu
      by_cases ho : s'.owner = some t
      · exact {
          other := fun hne => absurd ho hne
          counted := fun _ => by
            have := ht.counted (howner ▸ ho)
            simpa [openInitializers, hinitializers, hcount, hp, hc, hp', hc'] using this
          nodup := hinitializers ▸ ht.nodup
          fresh := fun g hg => by
            cases hq : s'.place t <;> simp_all [checked, acquiring]
          unmarked := fun g hg => by simp [hg, acquiring] at hp'
          passing := fun g hg => by simp [hg, acquiring] at hp'
          reentered := fun g hg => by simp [hg, acquiring] at hp' }
      · exact .outside ho (by rw [hinitializers, (ht.other (howner ▸ ho)).1]) hp' hc'
    · exact {
        other := by
          rw [howner, hinitializers, hplace t htu]
          exact ht.other
        counted := by
          rw [howner, hcount, openInitializers, hinitializers, hplace t htu]
          exact ht.counted
        nodup := hinitializers ▸ ht.nodup
        fresh := by
          rw [hinitialized, hplace t htu]
          exact ht.fresh
        unmarked := by
          rw [hprogress, hplace t htu]
          exact ht.unmarked
        passing := by
          rw [hinitialized, hplace t htu]
          exact ht.passing
        reentered := by
          rw [hinitializers, hplace t htu]
          exact ht.reentered }
  · rw [hcount]
    exact h.free (howner ▸ ho)
  · obtain ⟨ph, hph, hstatus⟩ := h.guards g
    refine ⟨ph, htrace g ph hph, fun t ht => ?_⟩
    rw [howner] at ht
    rw [hinitializers, hinitialized, hprogress]
    by_cases htu : t = u
    · subst htu
      exact (hstatus t ht).other Iff.rfl (by simp [ending_none hc]) (by simp [ending_none hc'])
    · rw [hplace t htu]
      exact hstatus t ht

theorem Sound.inside (h : Sound s) (hs : s.owner = none ∨ s.owner = some u)
    (hs' : s'.owner = none ∨ s'.owner = some u) (hplace : ∀ t, t ≠ u → s'.place t = s.place t)
    (hinitializers : ∀ t, t ≠ u → s'.initializers t = s.initializers t)
    (hfree : s'.owner = none → s'.count = 0) (hu : Fits s' u)
    (hguards : ∀ g, ∃ ph, follow g s'.trace = some ph ∧
      Status u (s'.initializers u) (s'.place u) g (s'.initialized g) (s'.inProgress g) ph) :
    Sound s' := by
  have hother : ∀ {s : State τ γ} {t}, s.owner = none ∨ s.owner = some u → t ≠ u →
      s.owner ≠ some t := by
    rintro s t (ho | ho) ht <;> rw [ho]
    · simp
    · simpa using ht.symm
  have hidle : ∀ t, t ≠ u → s'.initializers t = [] ∧ acquiring (s'.place t) = false ∧
      closing (s'.place t) = false := by
    intro t ht
    rw [hinitializers t ht, hplace t ht]
    exact (h.fits t).other (hother hs ht)
  refine ⟨fun t => ?_, hfree, fun g => ?_⟩
  · by_cases htu : t = u
    · exact htu ▸ hu
    · obtain ⟨hgs, ha, hc⟩ := hidle t htu
      exact .outside (hother hs' htu) hgs ha hc
  · obtain ⟨ph, hph, hstatus⟩ := hguards g
    refine ⟨ph, hph, fun t ht => ?_⟩
    by_cases htu : t = u
    · exact htu ▸ hstatus
    · obtain ⟨hgs, -, hc⟩ := hidle t htu
      obtain ⟨hgs', -, hc'⟩ := hu.other (by
        rw [ht.resolve_right (hother hs' htu)]
        simp)
      rw [hgs]
      rw [hgs'] at hstatus
      exact hstatus.transfer hc' hc

theorem lock_step (h : Sound s) (hp : s.place u = .lock g) (hs : txMutexGet s u = some s') :
    Sound (s'.go u (.locked g)) := by
  have hfits := h.fits u
  unfold txMutexGet at hs
  split at hs
  · rename_i hfree
    cases hs
    have hcount := hfits.count_of_lock h.free hfree
    simp only [openInitializers, hp, closing, acquiring] at hcount
    refine h.inside (u := u) hfree (Or.inr rfl) (fun t ht => Function.update_of_ne ht ..)
      (fun _ _ => rfl) (fun ho => by cases ho) ?_ fun k => ?_
    · exact {
        other := fun hne => absurd rfl hne
        counted := fun _ => by simp [State.go, openInitializers, closing, acquiring, hcount]
        nodup := hfits.nodup
        fresh := fun k hk => by simp [State.go, checked] at hk
        unmarked := fun k hk => by simp [State.go] at hk
        passing := fun k hk => by simp [State.go] at hk
        reentered := fun k hk => by simp [State.go] at hk }
    · obtain ⟨ph, hph, hstatus⟩ := h.status k hfree
      refine ⟨ph, hph, hstatus.other Iff.rfl (by simp [hp, ending]) ?_⟩
      simp [State.go, ending]
  · cases hs

theorem unlock_step (h : Sound s) (hp : acquiring (s.place u) = true ∨ closing (s.place u) = true)
    (he : ending (s.place u) = none) {trace : List (Event τ γ)}
    (htrace : ∀ g ph, follow g s.trace = some ph → follow g trace = some ph)
    (hs : txMutexPut s u = some s') : Sound { s'.go u .user with trace := trace } := by
  have hfits := h.fits u
  unfold txMutexPut at hs
  split at hs
  · rename_i ho
    cases hs
    have hcount : s.count = (s.initializers u).length + 1 := by
      have := hfits.counted ho
      unfold openInitializers at this
      cases hplace : s.place u <;> simp_all [acquiring, closing]
    have howner : s.owner = none ∨ s.owner = some u := Or.inr ho
    refine h.inside (u := u) howner ?_ (fun t ht => Function.update_of_ne ht ..)
      (fun _ _ => rfl) ?_ ?_ fun k => ?_
    · simp only [State.go]
      split <;> simp
    · simp only [State.go]
      split <;> simp_all
    · exact {
        other := fun hne => by
          simp only [State.go, hcount, Nat.add_eq_right, List.length_eq_zero_iff] at hne ⊢
          by_cases hgs : s.initializers u = []
          · exact ⟨hgs, by simp [acquiring], by simp [closing]⟩
          · simp [hgs] at hne
        counted := fun _ => by simp [State.go, openInitializers, closing, acquiring, hcount]
        nodup := hfits.nodup
        fresh := fun k hk => by simp [State.go, checked] at hk
        unmarked := fun k hk => by simp [State.go] at hk
        passing := fun k hk => by simp [State.go] at hk
        reentered := fun k hk => by simp [State.go] at hk }
    · obtain ⟨ph, hph, hstatus⟩ := h.status k howner
      refine ⟨ph, htrace k ph hph, hstatus.other Iff.rfl (by simp [he]) ?_⟩
      simp [State.go, ending]
  · cases hs

theorem check_step (h : Sound s) {trace : List (Event τ γ)} (hp : acquiring (s.place u) = true)
    (hq : acquiring q = true)
    (hfresh : ∀ g, checked q = some g → s.initialized g = false)
    (hunmarked : ∀ g, q = .mark g → s.inProgress g = false)
    (hpassing : ∀ g, q = .leave g → s.initialized g = true)
    (hreentered : ∀ g, q = .fatal g → g ∈ s.initializers u)
    (htrace : ∀ g ph, follow g s.trace = some ph → follow g trace = some ph) :
    Sound { s.go u q with trace := trace } := by
  have hfits := h.fits u
  have ho := hfits.owns (Or.inr (Or.inl hp))
  have hclosing : ∀ {p : Place γ}, acquiring p = true → closing p = false := by
    intro p hp
    cases p <;> simp_all [acquiring, closing]
  refine h.inside (u := u) (Or.inr ho) (Or.inr ho) (fun t ht => Function.update_of_ne ht ..)
    (fun _ _ => rfl) h.free ?_ fun k => ?_
  · exact {
      other := fun hne => absurd ho hne
      counted := fun _ => by
        have := hfits.counted ho
        simpa [State.go, openInitializers, hp, hq, hclosing hp, hclosing hq] using this
      nodup := hfits.nodup
      fresh := by simpa [State.go] using hfresh
      unmarked := by simpa [State.go] using hunmarked
      passing := by simpa [State.go] using hpassing
      reentered := by simpa [State.go] using hreentered }
  · obtain ⟨ph, hph, hstatus⟩ := h.status k (Or.inr ho)
    refine ⟨ph, htrace k ph hph, hstatus.other Iff.rfl (by simp [ending_none (hclosing hp)]) ?_⟩
    simp [State.go, ending_none (hclosing hq)]

theorem mark_step (h : Sound s) (hp : s.place u = .mark g) :
    Sound ((((s.setInProgress g true).setInitializers u (g :: s.initializers u)).record
      (.start u g)).go u .user) := by
  have hfits := h.fits u
  have ho := hfits.owns (Or.inr (Or.inl (by rw [hp]; rfl)))
  have hfresh : s.initialized g = false := hfits.fresh g (by rw [hp]; rfl)
  have hunmarked := hfits.unmarked g hp
  -- no initializer of the guard is running, and it is idle
  obtain ⟨hidle, hclosed⟩ : follow g s.trace = some .idle ∧ g ∉ s.initializers u := by
    obtain ⟨ph, hph, hstatus⟩ := h.status g (Or.inr ho)
    rw [hfresh, hunmarked, hp] at hstatus
    cases hstatus with
    | published _ hq => cases hq
    | settled b hg _ => exact ⟨hph, hg⟩
  refine h.inside (u := u) (Or.inr ho) (Or.inr ho) (fun t ht => Function.update_of_ne ht ..)
    (fun t ht => Function.update_of_ne ht ..) h.free ?_ fun k => ?_
  · exact {
      other := fun hne => absurd ho hne
      counted := fun _ => by
        have := hfits.counted ho
        simpa [State.go, State.record, State.setInitializers, State.setInProgress,
          openInitializers, hp, closing, acquiring] using this
      nodup := by simpa [State.go, State.record, State.setInitializers] using ⟨hclosed, hfits.nodup⟩
      fresh := fun k hk => by simp [State.go, checked] at hk
      unmarked := fun k hk => by simp [State.go] at hk
      passing := fun k hk => by simp [State.go] at hk
      reentered := fun k hk => by simp [State.go] at hk }
  · by_cases hk : k = g
    · subst hk
      refine ⟨.running u, follow_next hidle rfl rfl, ?_⟩
      simp only [State.go, State.record, State.setInitializers, State.setInProgress,
        Function.update_self, hfresh]
      exact .running (List.mem_cons_self ..) (by simp [ending])
    · obtain ⟨ph, hph, hstatus⟩ := h.status k (Or.inr ho)
      refine ⟨ph, (follow_other (Ne.symm hk)).trans hph, ?_⟩
      simp only [State.go, State.record, State.setInitializers, State.setInProgress,
        Function.update_self, Function.update_of_ne hk]
      exact hstatus.other (by simp [hk]) (by simp [hp, ending]) (by simp [ending])

theorem end_step (h : Sound s) {threw : Bool} (hs : endInitializer s u threw = some s') :
    Sound s' := by
  have hfits := h.fits u
  unfold endInitializer at hs
  split at hs
  · rename_i g gs hp hgs
    cases hs
    have ho := hfits.owns (Or.inl (by simp [hgs]))
    have hnodup := hfits.nodup
    rw [hgs, List.nodup_cons] at hnodup
    obtain ⟨hrunning, hfresh, hprogress⟩ : follow g s.trace = some (.running u) ∧
        s.initialized g = false ∧ s.inProgress g = true := by
      obtain ⟨ph, hph, hstatus⟩ := h.status g (Or.inr ho)
      generalize s.initialized g = b, s.inProgress g = c at hstatus
      have hg : g ∈ s.initializers u := by simp [hgs]
      cases hstatus with
      | running _ _ => exact ⟨hph, rfl, rfl⟩
      | released hg' _ => exact absurd hg hg'
      | published hg' _ => exact absurd hg hg'
      | aborted hg' _ => exact absurd hg hg'
      | settled _ hg' _ => exact absurd hg hg'
    refine h.inside (u := u) (Or.inr ho) (Or.inr ho) (fun t ht => Function.update_of_ne ht ..)
      (fun t ht => Function.update_of_ne ht ..) h.free ?_ fun k => ?_
    · exact {
        other := fun hne => absurd ho hne
        counted := fun _ => by
          have := hfits.counted ho
          cases threw <;> simpa [State.go, State.record, State.setInitializers, openInitializers, hp,
            hgs, closing, acquiring] using this
        nodup := by simpa [State.go, State.record, State.setInitializers] using hnodup.2
        fresh := fun k hk => by cases threw <;> simp [State.go, checked] at hk
        unmarked := fun k hk => by cases threw <;> simp [State.go] at hk
        passing := fun k hk => by cases threw <;> simp [State.go] at hk
        reentered := fun k hk => by cases threw <;> simp [State.go] at hk }
    · by_cases hk : k = g
      · subst hk
        simp only [State.go, State.record, State.setInitializers, Function.update_self, hfresh,
          hprogress]
        cases threw with
        | true => exact ⟨.idle, follow_next hrunning rfl (by simp [advance]), .aborted hnodup.1 rfl⟩
        | false => exact ⟨.done, follow_next hrunning rfl (by simp [advance]), .released hnodup.1 rfl⟩
      · obtain ⟨ph, hph, hstatus⟩ := h.status k (Or.inr ho)
        refine ⟨ph, (follow_other ?_).trans hph, ?_⟩
        · cases threw <;> exact Ne.symm hk
        · simp only [State.go, State.record, State.setInitializers, Function.update_self]
          refine hstatus.other (by simp [hgs, hk]) (by simp [hp, ending]) ?_
          cases threw <;> simpa [ending] using Ne.symm hk
  · cases hs

theorem byte_step (h : Sound s) {initialized inProgress : γ → Bool}
    (hp : closing (s.place u) = true) (he : ending (s.place u) = some g) (hq : closing q = true)
    (hqe : ∀ k, ending q = some k → k = g)
    (hother : ∀ k, k ≠ g → initialized k = s.initialized k ∧ inProgress k = s.inProgress k)
    (hg : ∀ ph, Status u (s.initializers u) (s.place u) g (s.initialized g) (s.inProgress g) ph →
      Status u (s.initializers u) q g (initialized g) (inProgress g) ph) :
    Sound { s.go u q with initialized := initialized, inProgress := inProgress } := by
  have hfits := h.fits u
  have ho := hfits.owns (Or.inr (Or.inr hp))
  have hacquiring : ∀ {p : Place γ}, closing p = true → acquiring p = false := by
    intro p hp
    cases p <;> simp_all [acquiring, closing]
  refine h.inside (u := u) (Or.inr ho) (Or.inr ho) (fun t ht => Function.update_of_ne ht ..)
    (fun _ _ => rfl) h.free ?_ fun k => ?_
  · exact {
      other := fun hne => absurd ho hne
      counted := fun _ => by
        have := hfits.counted ho
        simpa [State.go, openInitializers, hp, hq, hacquiring hp, hacquiring hq] using this
      nodup := hfits.nodup
      fresh := fun k hk => by
        simp only [State.go, Function.update_self] at hk
        cases q <;> simp_all [checked, closing]
      unmarked := fun k hk => by
        simp only [State.go, Function.update_self] at hk
        simp [hk, closing] at hq
      passing := fun k hk => by
        simp only [State.go, Function.update_self] at hk
        simp [hk, closing] at hq
      reentered := fun k hk => by
        simp only [State.go, Function.update_self] at hk
        simp [hk, closing] at hq }
  · obtain ⟨ph, hph, hstatus⟩ := h.status k (Or.inr ho)
    refine ⟨ph, hph, ?_⟩
    simp only [State.go, Function.update_self]
    by_cases hk : k = g
    · subst hk
      exact hg ph hstatus
    · rw [(hother k hk).1, (hother k hk).2]
      exact hstatus.other Iff.rfl (by simp [he, Ne.symm hk]) fun hqk => hk (hqe k hqk)

theorem release_step (h : Sound s) (hs : cxaGuardRelease s u = some s') : Sound s' := by
  unfold cxaGuardRelease at hs
  split at hs
  · rename_i g hp
    cases hs
    refine byte_step h (g := g) (by rw [hp]; rfl) (by rw [hp]; rfl) rfl (fun k hk => by
      simpa [ending, eq_comm] using hk) (fun k hk => ⟨rfl, Function.update_of_ne hk ..⟩) ?_
    simp only [hp, State.setInProgress, Function.update_self]
    exact fun _ => Status.release
  · rename_i g hp
    cases hs
    refine byte_step h (g := g) (by rw [hp]; rfl) (by rw [hp]; rfl) rfl (fun k hk => by
      simp [ending] at hk) (fun k hk => ⟨Function.update_of_ne hk .., rfl⟩) ?_
    simp only [hp, Function.update_self]
    exact fun _ => Status.publish
  · rename_i g hp
    cases hs
    refine byte_step h (g := g) (by rw [hp]; rfl) (by rw [hp]; rfl) rfl (fun k hk => by
      simp [ending] at hk) (fun k hk => ⟨rfl, Function.update_of_ne hk ..⟩) ?_
    simp only [hp, State.setInProgress, Function.update_self]
    exact fun _ => Status.abort
  · rename_i hp
    have hclosing : closing (s.place u) = true := by rw [hp]; rfl
    obtain ⟨s₁, hs₁, htrace⟩ := put_owned ((h.fits u).owns (Or.inr (Or.inr hclosing)))
    rw [hs₁] at hs
    cases hs
    refine unlock_step h (Or.inr hclosing) (by rw [hp]; rfl) (fun _ _ => ?_) hs₁
    rw [htrace]
    exact id
  · cases hs

theorem acquire_step (h : Sound s) (hs : cxaGuardAcquire s u = some s') : Sound s' := by
  unfold cxaGuardAcquire at hs
  split at hs
  · rename_i g hp
    cases hs
    split
    · rename_i hg
      refine h.alone (u := u) rfl rfl rfl rfl rfl (fun t ht => Function.update_of_ne ht ..)
        (follow_pass (h.done u hg)) (by rw [hp]; rfl) (by rw [hp]; rfl) ?_ ?_ <;>
        simp [State.go, acquiring, closing]
    · refine h.alone (u := u) rfl rfl rfl rfl rfl (fun t ht => Function.update_of_ne ht ..)
        (fun _ _ => id) (by rw [hp]; rfl) (by rw [hp]; rfl) ?_ ?_ <;>
        simp [State.go, acquiring, closing]
  · rename_i g hp
    obtain ⟨s₁, hs₁, rfl⟩ := Option.map_eq_some_iff.mp hs
    exact lock_step h hp hs₁
  · rename_i g hp
    cases hs
    refine check_step h (by rw [hp]; rfl) ?_ (fun k hk => ?_) (fun k hk => ?_) (fun k hk => ?_)
      (fun k hk => ?_) (fun _ _ => id)
    · split <;> rfl
    · split at hk
      · cases hk
      · rename_i hg
        cases hk
        simpa using hg
    · split at hk <;> cases hk
    · split at hk
      · rename_i hg
        cases hk
        exact hg
      · cases hk
    · split at hk <;> cases hk
  · rename_i g hp
    have hacquiring : acquiring (s.place u) = true := by rw [hp]; rfl
    obtain ⟨s₁, hs₁, htrace⟩ := put_owned ((h.fits u).owns (Or.inr (Or.inl hacquiring)))
    rw [hs₁] at hs
    cases hs
    refine unlock_step h (Or.inl hacquiring) (by rw [hp]; rfl) ?_ hs₁
    rw [State.record, htrace]
    exact follow_pass (h.done u ((h.fits u).passing g hp))
  · rename_i g hp
    cases hs
    have hacquiring : acquiring (s.place u) = true := by rw [hp]; rfl
    split
    · rename_i hg
      obtain ⟨hmem, hrunning⟩ : g ∈ s.initializers u ∧ follow g s.trace = some (.running u) := by
        have ho := (h.fits u).owns (Or.inr (Or.inl hacquiring))
        obtain ⟨ph, hph, hstatus⟩ := h.status g (Or.inr ho)
        rw [hp, hg] at hstatus
        generalize s.initialized g = b at hstatus
        cases hstatus with
        | running hmem _ => exact ⟨hmem, hph⟩
        | released _ hq => cases hq
        | aborted _ hq => cases hq
      refine check_step h hacquiring rfl (fun k hk => by cases hk) (fun k hk => by cases hk)
        (fun k hk => by cases hk) (fun k hk => by cases hk; exact hmem) fun k ph hph => ?_
      by_cases hk : k = g
      · subst hk
        obtain rfl : ph = .running u := Option.some.inj (hph.symm.trans hrunning)
        exact follow_next hrunning rfl (by simp [advance])
      · exact (follow_other (Ne.symm hk)).trans hph
    · rename_i hg
      refine check_step h hacquiring rfl (fun k hk => ?_) (fun k hk => ?_) (fun k hk => by cases hk)
        (fun k hk => by cases hk) (fun _ _ => id)
      · exact (h.fits u).fresh k (by rw [hp]; exact hk)
      · cases hk
        simpa using hg
  · rename_i g hp
    cases hs
    exact mark_step h hp
  · cases hs

theorem sound_step {a : Action τ γ} (h : Sound s) (hs : step s a = some s') : Sound s' := by
  cases a with
  | enter t g =>
    simp only [step] at hs
    split at hs
    · rename_i hp
      cases hs
      refine h.alone (u := t) rfl rfl rfl rfl rfl (fun u hu => Function.update_of_ne hu ..)
        (fun _ _ => id) (by rw [hp]; rfl) (by rw [hp]; rfl) ?_ ?_ <;>
        simp [State.go, acquiring, closing]
    · cases hs
  | acquire t => exact acquire_step h hs
  | lockFails t =>
    simp only [step, lockFails] at hs
    split at hs
    · rename_i g hp
      cases hs
      refine h.alone (u := t) rfl rfl rfl rfl rfl (fun u hu => Function.update_of_ne hu ..)
        (fun _ _ => id) (by rw [hp]; rfl) (by rw [hp]; rfl) ?_ ?_ <;>
        simp [State.go, acquiring, closing]
    · cases hs
  | finish t => exact end_step h hs
  | throw t => exact end_step h hs
  | release t => exact release_step h hs

theorem sound_initial : Sound ({} : State τ γ) where
  fits := fun t => .outside (by simp) rfl rfl rfl
  free := fun _ => rfl
  guards := fun g => ⟨.idle, rfl, fun t _ => .settled false List.not_mem_nil (by simp [ending])⟩

theorem Sound.running (h : Sound s) (t : τ) (g : γ) :
    g ∈ s.initializers t ↔ follow g s.trace = some (.running t) := by
  constructor
  · intro hg
    have ho := (h.fits t).owns (Or.inl (List.ne_nil_of_mem hg))
    obtain ⟨ph, hph, hstatus⟩ := h.status g (Or.inr ho)
    generalize s.initialized g = b, s.inProgress g = c at hstatus
    cases hstatus with
    | running _ _ => exact hph
    | released hg' _ => exact absurd hg hg'
    | published hg' _ => exact absurd hg hg'
    | aborted hg' _ => exact absurd hg hg'
    | settled _ hg' _ => exact absurd hg hg'
  · intro hfollow
    obtain ⟨u, hu⟩ : ∃ u, s.owner = none ∨ s.owner = some u := by
      cases s.owner with
      | none => exact ⟨t, Or.inl rfl⟩
      | some u => exact ⟨u, Or.inr rfl⟩
    obtain ⟨ph, hph, hstatus⟩ := h.status g hu
    have hrunning : ph = .running t := Option.some.inj (hph.symm.trans hfollow)
    generalize s.initialized g = b, s.inProgress g = c at hstatus
    cases hstatus with
    | running hg _ =>
      cases hrunning
      exact hg
    | settled b _ _ => cases b <;> cases hrunning
    | _ => cases hrunning

theorem Sound.initializing (h : Sound s) (hg : g ∈ s.initializers t) :
    s.owner = some t ∧ s.initialized g = false ∧ s.inProgress g = true := by
  have ho := (h.fits t).owns (Or.inl (List.ne_nil_of_mem hg))
  obtain ⟨ph, -, hstatus⟩ := h.status g (Or.inr ho)
  refine ⟨ho, ?_⟩
  generalize s.initialized g = b, s.inProgress g = c at hstatus
  cases hstatus with
  | running _ _ => exact ⟨rfl, rfl⟩
  | released hg' _ => exact absurd hg hg'
  | published hg' _ => exact absurd hg hg'
  | aborted hg' _ => exact absurd hg hg'
  | settled _ hg' _ => exact absurd hg hg'

theorem Sound.detects (h : Sound s) (hg : g ∈ s.initializers t)
    (hp : entering (s.place t) = some g) :
    ∃ s', step s (.acquire t) = some s' ∧ s'.place t = reentry (s.place t) ∧
      s'.initializers = s.initializers := by
  obtain ⟨ho, hinitialized, hprogress⟩ := h.initializing hg
  cases hplace : s.place t <;> rw [hplace] at hp <;> cases hp
  · exact ⟨s.go t (.lock g), by simp [step, cxaGuardAcquire, hplace, hinitialized],
      Function.update_self .., rfl⟩
  · refine ⟨{ s with owner := some t, count := s.count + 1 }.go t (.locked g), ?_,
      Function.update_self .., rfl⟩
    simp [step, cxaGuardAcquire, hplace, txMutexGet, ho]
  · exact ⟨s.go t (.progress g), by simp [step, cxaGuardAcquire, hplace, hinitialized],
      Function.update_self .., rfl⟩
  · exact ⟨(s.record (.reenter t g)).go t (.fatal g),
      by simp [step, cxaGuardAcquire, hplace, hprogress], Function.update_self .., rfl⟩

/-- The trace is one in which no guard is initialized twice; a guard's initializer is run by one
thread at a time; the mutex is counted, the call that is on its way in included; a thread is fatal
only for a guard whose initializer it is running, and an acquire of such a guard ends there. -/
structure InitializedOnce (s : State τ γ) : Prop where
  trace : Proper s.trace
  running : ∀ t g, g ∈ s.initializers t ↔ follow g s.trace = some (.running t)
  exclusive : ∀ t u g, g ∈ s.initializers t → g ∈ s.initializers u → t = u
  once : ∀ t, (s.initializers t).Nodup
  counted : ∀ t, s.owner = some t →
    s.count = openInitializers s t + (acquiring (s.place t)).toNat
  others : ∀ t, s.owner ≠ some t → openInitializers s t = 0
  owned : ∀ t, acquiring (s.place t) = true ∨ closing (s.place t) = true → s.owner = some t
  recursive : ∀ t g, s.place t = .fatal g → g ∈ s.initializers t
  detected : ∀ t g, g ∈ s.initializers t → entering (s.place t) = some g →
    ∃ s', step s (.acquire t) = some s' ∧ s'.place t = reentry (s.place t) ∧
      s'.initializers = s.initializers
  refused : ∀ t g, g ∈ s.initializers t → s.place t ≠ .mark g ∧ s.place t ≠ .leave g

theorem Sound.initializedOnce (h : Sound s) : InitializedOnce s where
  trace := proper_of_follow fun g => (h.guards g).imp fun _ => And.left
  running := h.running
  exclusive := fun t u g ht hu => by
    have hut := ((h.running t g).mp ht).symm.trans ((h.running u g).mp hu)
    cases hut
    rfl
  once := fun t => (h.fits t).nodup
  counted := fun t => (h.fits t).counted
  others := fun t ht => by
    obtain ⟨hgs, -, hc⟩ := (h.fits t).other ht
    simp [openInitializers, hgs, hc]
  owned := fun t ht => (h.fits t).owns (Or.inr ht)
  recursive := fun t => (h.fits t).reentered
  detected := fun t g => h.detects
  refused := fun t g hg => by
    refine ⟨fun hp => ?_, fun hp => ?_⟩
    · have hprogress := (h.initializing hg).2.2
      rw [(h.fits t).unmarked g hp] at hprogress
      cases hprogress
    · have hinitialized := (h.initializing hg).2.1
      rw [(h.fits t).passing g hp] at hinitialized
      cases hinitialized

end

theorem statics_initialized_once [DecidableEq τ] [DecidableEq γ] {s : State τ γ}
    (h : Runs.Reached step (fun _ _ => True) {} s) : InitializedOnce s :=
  (h.invariant sound_initial fun _ _ _ hs _ hstep => sound_step hs hstep).initializedOnce

/-- Thread 0 enters guard 0 and within it guard 1, whose initializer throws; thread 1 waits for
guard 0 and finds it initialized. -/
def nestedInitializers : List (StaticGuards.Action Nat Nat) :=
  [.enter 0 0, .acquire 0, .acquire 0, .acquire 0, .acquire 0, .acquire 0, .enter 1 0, .acquire 1,
    .enter 0 1, .acquire 0, .acquire 0, .acquire 0, .acquire 0, .acquire 0, .throw 0, .release 0,
    .release 0, .finish 0, .release 0, .release 0, .release 0, .acquire 1, .acquire 1, .acquire 1]

theorem statics_initialized_once_nested : ∃ s : State Nat Nat,
    Runs.Reached step (fun _ _ => True) {} s ∧ InitializedOnce s ∧
      s.trace = [.start 0 0, .start 0 1, .abort 0 1, .complete 0 0, .pass 1 0] := by
  have hsome : (Runs.perform step {} nestedInitializers).isSome = true := by decide +kernel
  obtain ⟨s, hs⟩ := Option.isSome_iff_exists.mp hsome
  have hreached := Runs.reached_of_perform hs (Runs.performs_always (fun _ _ => trivial) _)
  have htrace : (Runs.perform step {} nestedInitializers).map (fun s => s.trace) =
      some [.start 0 0, .start 0 1, .abort 0 1, .complete 0 0, .pass 1 0] := by decide +kernel
  rw [hs, Option.map_some, Option.some.injEq] at htrace
  exact ⟨s, hreached, statics_initialized_once hreached, htrace⟩

end SimPLCity.StaticInitialization
