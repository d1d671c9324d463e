import Mathlib.Logic.Function.Basic
import Mathlib.Data.List.Basic

/-! A handle whose ThreadX object is created when it is first used. The pointer to the object is read
without a lock, and published by the owner of the initialization mutex, who has read it again.
Every step is one access to the pointer, one allocation or one ThreadX call. -/

namespace SimPLCity.LazyCreation

abbrev NativeId := Nat

/-- Where a thread is that has found no object. -/
inductive Ensure
  | enter | reload | allocate | create | store (n : NativeId) | leave (found : Option NativeId)
deriving DecidableEq, Repr

/-- `implementation` is the pointer of the handle, `initializer` the owner of the initialization
mutex. -/
structure Lazy (τ ν : Type*) where
  implementation : Option NativeId := none
  initializer : Option τ := none
  natives : NativeId → ν
  created : Nat := 0

/-- A kind of ThreadX objects: a new one, and the threads that are suspended on one. -/
structure Kind (τ ν : Type*) where
  made : ν
  suspended : ν → List τ
  empty : suspended made = []

inductive Outcome
  | goes (e : Ensure)
  | returns (found : Option NativeId)

/-- What a thread that is somewhere has to do with the handle. -/
inductive View
  | outside
  | ensuring (e : Ensure)
  | using (n : NativeId)
  | suspended (n : NativeId)
deriving DecidableEq

def Outcome.view : Outcome → View
  | .goes e => .ensuring e
  | .returns (some n) => .using n
  | .returns none => .outside

theorem Outcome.view_ne_suspended (o : Outcome) (n : NativeId) : o.view ≠ .suspended n := by
  cases o with
  | goes e => exact nofun
  | returns found => cases found <;> exact nofun

/-- The thread owns the initialization mutex. -/
def View.inside : View → Bool
  | .ensuring .enter => false
  | .ensuring _ => true
  | _ => false

/-- The thread has found inside that nothing is published. -/
def View.building : View → Bool
  | .ensuring .allocate | .ensuring .create | .ensuring (.store _) => true
  | _ => false

/-- The object that the thread goes on with. -/
def View.uses : View → Option NativeId
  | .ensuring (.leave (some n)) | .using n | .suspended n => some n
  | _ => none

section
variable {τ ν : Type*}

/-- A ThreadX call on the object `n` leaves it as `m`. -/
def Lazy.act (x : Lazy τ ν) (n : NativeId) (m : ν) : Lazy τ ν :=
  { x with natives := Function.update x.natives n m }

@[simp] theorem act_self (x : Lazy τ ν) (n : NativeId) (m : ν) : (x.act n m).natives n = m :=
  Function.update_self ..

/-- The next step of `ensure_mutex` or `ensure_semaphore` behind the first load; `succeeds` is whether
the allocation or the creation of the object does. -/
def ensure (k : Kind τ ν) (x : Lazy τ ν) (t : τ) (succeeds : Bool) : Ensure → Option (Lazy τ ν × Outcome)
  | .enter => if x.initializer = none then some ({ x with initializer := some t }, .goes .reload) else none
  | .reload =>
    match x.implementation with
    | some n => some (x, .goes (.leave (some n)))
    | none => some (x, .goes .allocate)
  | .allocate => some (x, .goes (if succeeds then .create else .leave none))
  | .create =>
    if succeeds then
      some ({ x.act x.created k.made with created := x.created + 1 }, .goes (.store x.created))
    else some (x, .goes (.leave none))
  | .store n => some ({ x with implementation := some n }, .goes (.leave (some n)))
  | .leave found => some ({ x with initializer := none }, .returns found)

structure Fits (k : Kind τ ν) (x : Lazy τ ν) (t : τ) (v : View) : Prop where
  initializer : x.initializer = some t ↔ v.inside = true
  fresh : v.building = true → x.implementation = none
  candidate : ∀ n, v = .ensuring (.store n) → x.natives n = k.made
  found : ∀ n, v.uses = some n → x.implementation = some n
  queued : ∀ n, x.implementation = some n → (t ∈ k.suspended (x.natives n) ↔ v = .suspended n)

/-- What becomes of the published object: nothing, or it is a new one. -/
inductive Effect (k : Kind τ ν) (x x' : Lazy τ ν) : Prop
  | same (himplementation : x'.implementation = x.implementation) (hnatives : x'.natives = x.natives)
  | unpublished (hbefore : x.implementation = none) (hafter : x'.implementation = none)
  | published (n : NativeId) (hbefore : x.implementation = none) (hafter : x'.implementation = some n)
    (hmade : x'.natives n = k.made)

section
variable {k : Kind τ ν} {x x' : Lazy τ ν} {t u : τ} {v w : View} {n : NativeId} {m : ν} {e : Ensure}
  {o : Outcome} {succeeds : Bool}

theorem Fits.not_queued (h : Fits k x t v) (hv : ∀ n, v ≠ .suspended n)
    (hn : x.implementation = some n) : t ∉ k.suspended (x.natives n) := by
  rw [h.queued n hn]
  exact hv n

theorem Fits.not_inside (h : Fits k x t v) (hv : v.inside = false) : x.initializer ≠ some t := by
  rw [Ne, h.initializer, hv]
  exact Bool.false_ne_true

theorem building_inside (h : v.building = true) : v.inside = true := by
  cases v with
  | ensuring e => cases e <;> first | rfl | cases h
  | _ => cases h

theorem Fits.pass (h : Fits k x t v) (hv : v.inside = false) (hqueue : ∀ n, v ≠ .suspended n)
    (hw : w.inside = false) (hfound : ∀ n, w.uses = some n → x.implementation = some n)
    (hsuspended : ∀ n, w ≠ .suspended n) : Fits k x t w where
  initializer := iff_of_false (h.not_inside hv) (by simp [hw])
  fresh := fun hb => by
    rw [building_inside hb] at hw
    cases hw
  candidate := fun n hn => by
    rw [hn] at hw
    cases hw
  found := hfound
  queued := fun n hn => iff_of_false (h.not_queued hqueue hn) (hsuspended n)

theorem Fits.act_other (h : Fits k x t v) (hn : x.implementation = some n)
    (hqueue : t ∈ k.suspended m ↔ t ∈ k.suspended (x.natives n)) : Fits k (x.act n m) t v where
  initializer := h.initializer
  fresh := h.fresh
  candidate := fun i hi => by
    have hnone := h.fresh (by rw [hi]; rfl)
    rw [hn] at hnone
    cases hnone
  found := h.found
  queued := fun i hi => by
    obtain rfl := Option.some.inj (hn.symm.trans hi)
    rw [LazyCreation.act_self]
    exact hqueue.trans (h.queued n hn)

theorem Fits.act_self (h : Fits k x t v) (hn : x.implementation = some n) (hv : v.inside = false)
    (hw : w.inside = false) (hfound : ∀ i, w.uses = some i → i = n)
    (hqueue : t ∈ k.suspended m ↔ w = .suspended n) : Fits k (x.act n m) t w where
  initializer := iff_of_false (h.not_inside hv) (by simp [hw])
  fresh := fun hb => by
    rw [building_inside hb] at hw
    cases hw
  candidate := fun i hi => by
    rw [hi] at hw
    cases hw
  found := fun i hi => by
    rw [hfound i hi]
    exact hn
  queued := fun i hi => by
    obtain rfl := Option.some.inj (hn.symm.trans hi)
    rw [LazyCreation.act_self]
    exact hqueue

theorem Fits.clear (h : Fits k x t v) (hv : v.uses = none) :
    Fits k { x with implementation := none } t v where
  initializer := h.initializer
  fresh := fun _ => rfl
  candidate := h.candidate
  found := fun n hn => by
    rw [hv] at hn
    cases hn
  queued := fun _ hn => by cases hn

theorem ensure_effect (h : Fits k x u (.ensuring e)) (hs : ensure k x u succeeds e = some (x', o)) :
    Effect k x x' := by
  cases e with
  | enter =>
    simp only [ensure] at hs
    split at hs <;> cases hs
    exact .same rfl rfl
  | reload =>
    simp only [ensure] at hs
    split at hs <;> cases hs <;> exact .same rfl rfl
  | allocate =>
    cases hs
    exact .same rfl rfl
  | create =>
    simp only [ensure] at hs
    split at hs <;> cases hs
    · exact .unpublished (h.fresh rfl) (h.fresh rfl)
    · exact .same rfl rfl
  | store n =>
    cases hs
    exact .published n (h.fresh rfl) rfl (h.candidate n rfl)
  | leave found =>
    cases hs
    exact .same rfl rfl

theorem Effect.before (h : Effect k x x') (hnone : x'.implementation = none) : x.implementation = none := by
  cases h with
  | same himplementation _ => exact himplementation ▸ hnone
  | unpublished hbefore _ => exact hbefore
  | published n hbefore _ _ => exact hbefore

theorem Effect.after (h : Effect k x x') (hsome : x.implementation = some n) :
    x'.implementation = some n := by
  cases h with
  | same himplementation _ => exact himplementation.trans hsome
  | unpublished hbefore _ => exact absurd (hbefore.symm.trans hsome) nofun
  | published i hbefore _ _ => exact absurd (hbefore.symm.trans hsome) nofun

theorem Effect.keeps {P : ν → Prop} (h : Effect k x x')
    (hold : ∀ n, x.implementation = some n → P (x.natives n))
    (hnew : x.implementation = none → P k.made) (hn : x'.implementation = some n) : P (x'.natives n) := by
  cases h with
  | same himplementation hnatives =>
    rw [hnatives]
    exact hold n (himplementation ▸ hn)
  | unpublished _ hafter => exact absurd (hafter.symm.trans hn) nofun
  | published i hbefore hafter hmade =>
    obtain rfl := Option.some.inj (hafter.symm.trans hn)
    rw [hmade]
    exact hnew hbefore

theorem Fits.ensure_self (h : Fits k x t (.ensuring e))
    (hs : ensure k x t succeeds e = some (x', o)) : Fits k x' t o.view := by
  have hqueue : ∀ n, x.implementation = some n → t ∉ k.suspended (x.natives n) := fun n =>
    h.not_queued nofun
  cases e with
  | enter =>
    simp only [ensure] at hs
    split at hs <;> cases hs
    exact ⟨iff_of_true rfl rfl, nofun, nofun, nofun, fun n hn => iff_of_false (hqueue n hn) nofun⟩
  | reload =>
    have hinside := h.initializer.mpr rfl
    simp only [ensure] at hs
    split at hs <;> rename_i himplementation <;> cases hs
    · refine ⟨iff_of_true hinside rfl, nofun, nofun, fun n hn => ?_, fun n hn => iff_of_false (hqueue n hn) nofun⟩
      cases hn
      exact himplementation
    · exact ⟨iff_of_true hinside rfl, fun _ => himplementation, nofun, nofun,
        fun n hn => iff_of_false (hqueue n hn) nofun⟩
  | allocate =>
    have hinside := h.initializer.mpr rfl
    have hnone := h.fresh rfl
    cases hs
    cases succeeds <;>
      exact ⟨iff_of_true hinside rfl, fun _ => hnone, nofun, nofun,
        fun n hn => iff_of_false (hqueue n hn) nofun⟩
  | create =>
    have hinside := h.initializer.mpr rfl
    have hnone := h.fresh rfl
    simp only [ensure] at hs
    split at hs <;> cases hs
    · refine ⟨iff_of_true hinside rfl, fun _ => hnone, fun n hn => ?_, nofun, fun n hn => ?_⟩
      · cases hn
        exact LazyCreation.act_self ..
      · exact absurd (hnone.symm.trans hn) nofun
    · exact ⟨iff_of_true hinside rfl, nofun, nofun, nofun, fun n hn => iff_of_false (hqueue n hn) nofun⟩
  | store n =>
    have hinside := h.initializer.mpr rfl
    have hmade := h.candidate n rfl
    cases hs
    refine ⟨iff_of_true hinside rfl, nofun, nofun, fun i hi => hi, fun i hi => iff_of_false ?_ nofun⟩
    cases hi
    change t ∉ k.suspended (x.natives n)
    rw [hmade, k.empty]
    exact List.not_mem_nil
  | leave found =>
    cases hs
    cases found with
    | none => exact ⟨iff_of_false nofun nofun, nofun, nofun, nofun, fun n hn => iff_of_false (hqueue n hn) nofun⟩
    | some i =>
      refine ⟨iff_of_false nofun nofun, nofun, nofun, fun n hn => ?_, fun n hn => iff_of_false (hqueue n hn) nofun⟩
      exact h.found n hn

theorem Fits.ensure_other (h : Fits k x t v) (hu : Fits k x u (.ensuring e)) (htu : t ≠ u)
    (hs : ensure k x u succeeds e = some (x', o)) : Fits k x' t v := by
  have hout : View.inside (.ensuring e) = true → v.inside = false := by
    intro hinside
    by_contra hv
    have howner := hu.initializer.mpr hinside
    rw [h.initializer.mpr (by simpa using hv)] at howner
    exact htu (Option.some.inj howner)
  have hnot_building : v.inside = false → v.building ≠ true := by
    intro hv hb
    rw [building_inside hb] at hv
    cases hv
  cases e with
  | enter =>
    simp only [ensure] at hs
    split at hs <;> cases hs
    rename_i hfree
    refine ⟨?_, h.fresh, h.candidate, h.found, h.queued⟩
    have hv : v.inside ≠ true := by
      rw [Ne, ← h.initializer, hfree]
      exact nofun
    refine iff_of_false (fun howner => htu (Option.some.inj howner).symm) hv
  | reload =>
    simp only [ensure] at hs
    split at hs <;> cases hs <;> exact h
  | allocate =>
    cases hs
    exact h
  | create =>
    have hnone := hu.fresh rfl
    simp only [ensure] at hs
    split at hs <;> cases hs
    · refine ⟨h.initializer, h.fresh, fun n hn => ?_, h.found, fun n hn => ?_⟩
      · rw [hn] at hout
        cases hout rfl
      · exact absurd (hnone.symm.trans hn) nofun
    · exact h
  | store n =>
    have hnone := hu.fresh rfl
    have hmade := hu.candidate n rfl
    cases hs
    have hunused : ∀ i, v.uses ≠ some i := fun i hi => by
      rw [h.found i hi] at hnone
      cases hnone
    refine ⟨h.initializer, fun hb => absurd hb (hnot_building (hout rfl)), h.candidate,
      fun i hi => absurd hi (hunused i), fun i hi => iff_of_false ?_ fun hv => hunused i (by rw [hv]; rfl)⟩
    cases hi
    change t ∉ k.suspended (x.natives n)
    rw [hmade, k.empty]
    exact List.not_mem_nil
  | leave found =>
    cases hs
    refine ⟨iff_of_false nofun ?_, h.fresh, h.candidate, h.found, h.queued⟩
    rw [hout rfl]
    exact Bool.false_ne_true

end

end

end SimPLCity.LazyCreation
