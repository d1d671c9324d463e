import SimPLCity.ConditionObjects
import SimPLCity.Runs
import Mathlib.Data.List.Pairwise
import Mathlib.Data.Option.Basic

/-! No wakeup of a condition variable is lost and none is made up: what the list, the semaphores
and the mutex have to do with where the waiting and the waking threads are. -/

namespace SimPLCity.Wakeups
open IntrusiveList ConditionVariables ConditionObjects ThreadXObjects

/-- The waiter is in the list, if nobody has removed it. -/
def waits : Place → Bool
  | .unlock | .leave _ | .sleep | .recheck _ _ | .settle _ _ => true
  | _ => false

/-- The waiter has its semaphore. -/
def inWait : Place → Bool
  | .enter | .append | .unlock | .leave _ | .sleep | .recheck _ _ | .settle _ _ | .resume _ _
  | .destroy _ _ => true
  | _ => false

/-- What the wait is going to return if the mutex can be locked again. -/
def outcome : Place → Option Nat
  | .resume status _ | .destroy status _ | .relock status => some status
  | _ => none

/-- The wait for the token has failed. -/
def failure : Place → Option Nat
  | .recheck status _ | .settle status _ => some status
  | _ => none

def unqueued : Place → Bool
  | .create | .enter | .append => true
  | _ => false

/-- The user's mutex is still locked. -/
def owns : Place → Bool
  | .create | .enter | .append | .unlock => true
  | _ => false

/-- The user's mutex was not the caller's. -/
def backsOut : Place → Bool
  | .leave false | .recheck _ false | .settle _ false | .resume _ false | .destroy _ false => true
  | _ => false

def target : Place → Option ThreadId
  | .post _ _ _ w => some w
  | _ => none

/-- The waiter that is removed and whose semaphore is about to be put. -/
def posted (s : Owned) : Option ThreadId := s.mutex.bind fun t => target (s.place t)

/-- What holds of one thread that is at `p`. `token` says that a waiter that was removed has its
token in the semaphore, has taken it, or is about to get it. -/
structure Fits (s : Owned) (t : ThreadId) (p : Place) : Prop where
  mutex : s.mutex = some t ↔ holds p = true
  queued : t ∈ s.queue ↔ waits p = true ∧ s.removed t = false
  semaphore : (s.semaphore t).isSome = inWait p
  token : inWait p = true → (s.semaphore t).getD 0 + (if outcome p = some 0 then 1 else 0) +
    (if posted s = some t then 1 else 0) = (s.removed t).toNat
  targeted : posted s = some t → waits p = true
  early : unqueued p = true → s.removed t = false
  decided : ∀ status, outcome p = some status → (status = 0 ↔ s.removed t = true)
  failed : failure p ≠ some 0
  returned : ∀ code relocked, p = .returned code relocked →
    (code = 0 ↔ s.removed t = true ∧ relocked = true)
  owned : owns p = true → s.userMutex (s.argument t) = some t
  unlocked : backsOut p = false

/-- The lists of a thread that wakes others. -/
def Waking (queue : List ThreadId) : Place → Prop
  | .wake all found done => found = done ++ queue ∧ (all = false → done = [])
  | .post all found done w => found = done ++ w :: queue ∧ (all = false → done = [])
  | .wakeLeave all found done =>
    found = done ++ queue ∧ (if all then queue = [] else done = found.take 1)
  | _ => True

structure Good (s : Owned) : Prop where
  fits : ∀ t, Fits s t (s.place t)
  represents : Represents s.links s.queue
  sorted : s.queue.Pairwise fun a b => s.arrival a < s.arrival b
  arrived : ∀ t ∈ s.queue, s.arrival t < s.arrivals
  waking : ∀ t, Waking s.queue (s.place t)

/-- What a step of `u` leaves as it is for `t`. -/
structure Leaves (s s' : Owned) (t : ThreadId) : Prop where
  place : s'.place t = s.place t
  mutex : s'.mutex = some t ↔ s.mutex = some t
  queued : t ∈ s'.queue ↔ t ∈ s.queue
  semaphore : s'.semaphore t = s.semaphore t
  removed : s'.removed t = s.removed t
  posted : posted s' = some t ↔ posted s = some t
  argument : s'.argument t = s.argument t
  owner : ∀ m, s.userMutex m = some t → s'.userMutex m = some t

section
variable {s s' : Owned} {t u w : ThreadId} {p q : Place}

theorem Fits.of_leaves (h : Fits s t (s.place t)) (hl : Leaves s s' t) :
    Fits s' t (s'.place t) := by
  rw [hl.place]
  exact {
    mutex := by rw [hl.mutex, h.mutex]
    queued := by rw [hl.queued, hl.removed, h.queued]
    semaphore := by rw [hl.semaphore, h.semaphore]
    token := by
      rw [hl.semaphore, hl.removed]
      simp only [hl.posted]
      exact h.token
    targeted := by
      rw [hl.posted]
      exact h.targeted
    early := by
      rw [hl.removed]
      exact h.early
    decided := by
      rw [hl.removed]
      exact h.decided
    failed := h.failed
    returned := by
      rw [hl.removed]
      exact h.returned
    owned := by
      rw [hl.argument]
      exact fun ho => hl.owner _ (h.owned ho)
    unlocked := h.unlocked }

theorem Fits.advance (h : Fits s u p) (hmutex : s'.mutex = some u ↔ holds q = true)
    (hqueue : u ∈ s'.queue ↔ u ∈ s.queue) (hsemaphore : s'.semaphore u = s.semaphore u)
    (hremoved : s'.removed u = s.removed u) (hposted : posted s' = some u ↔ posted s = some u)
    (hwaits : waits q = waits p) (hin : inWait q = inWait p)
    (houtcome : outcome q = outcome p)
    (hunqueued : unqueued q = true → unqueued p = true)
    (hfailure : failure q ≠ some 0) (hreturned : ∀ code relocked, q ≠ .returned code relocked)
    (howned : owns q = true → s'.userMutex (s'.argument u) = some u) (hback : backsOut q = false) :
    Fits s' u q where
  mutex := hmutex
  queued := by rw [hqueue, hwaits, hremoved, h.queued]
  semaphore := by rw [hsemaphore, hin, h.semaphore]
  token := by
    rw [hsemaphore, hremoved, hin, houtcome]
    simp only [hposted]
    exact h.token
  targeted := by
    rw [hposted, hwaits]
    exact h.targeted
  early := by
    rw [hremoved]
    exact fun hu => h.early (hunqueued hu)
  decided := by
    rw [houtcome, hremoved]
    exact h.decided
  failed := hfailure
  returned := fun code relocked hp => absurd hp (hreturned code relocked)
  owned := howned
  unlocked := hback

theorem Fits.outside (hmutex : s'.mutex = some u ↔ holds q = true) (hqueue : u ∉ s'.queue)
    (hsemaphore : s'.semaphore u = none) (hposted : posted s' ≠ some u)
    (hwaits : waits q = false) (hin : inWait q = false)
    (hunqueued : unqueued q = true → s'.removed u = false)
    (houtcome : ∀ status, outcome q = some status → (status = 0 ↔ s'.removed u = true))
    (hfailure : failure q = none)
    (hreturned : ∀ code relocked, q = .returned code relocked →
      (code = 0 ↔ s'.removed u = true ∧ relocked = true))
    (howned : owns q = true → s'.userMutex (s'.argument u) = some u) (hback : backsOut q = false) :
    Fits s' u q where
  mutex := hmutex
  queued := by simp [hqueue, hwaits]
  semaphore := by simp [hsemaphore, hin]
  token := by simp [hin]
  targeted := fun h => absurd h hposted
  early := hunqueued
  decided := houtcome
  failed := by simp [hfailure]
  returned := hreturned
  owned := howned
  unlocked := hback

theorem Fits.not_waiting (h : Fits s u p) (hp : waits p = false) :
    u ∉ s.queue ∧ posted s ≠ some u := by
  refine ⟨fun hq => ?_, fun hposted => ?_⟩
  · simp [h.queued, hp] at hq
  · simp [h.targeted hposted] at hp

theorem Fits.no_semaphore (h : Fits s u p) (hp : inWait p = false) : s.semaphore u = none := by
  have := h.semaphore
  rw [hp] at this
  simpa using this

theorem posted_same (hu : s.mutex ≠ some u) (hmutex : s'.mutex = s.mutex)
    (hplace : ∀ t, t ≠ u → s'.place t = s.place t) : posted s' = posted s := by
  unfold posted
  rw [hmutex]
  cases hm : s.mutex with
  | none => rfl
  | some x =>
    have hx : x ≠ u := by
      rintro rfl
      exact hu hm
    simp [hplace x hx]

theorem posted_none_of (hm : s.mutex = none ∨ s.mutex = some u) (hp : target (s.place u) = none) :
    posted s = none := by
  rcases hm with hm | hm <;> simp [posted, hm, hp]

theorem Fits.not_holds (h : Fits s u p) (hp : holds p = false) : s.mutex ≠ some u := by
  rw [Ne, h.mutex, hp]
  simp

theorem leaves_private (hu : s.mutex ≠ some u) (hmutex : s'.mutex = s.mutex)
    (hplace : ∀ t, t ≠ u → s'.place t = s.place t) (hqueue : s'.queue = s.queue)
    (hsemaphore : ∀ t, t ≠ u → s'.semaphore t = s.semaphore t)
    (hremoved : ∀ t, t ≠ u → s'.removed t = s.removed t)
    (hargument : ∀ t, t ≠ u → s'.argument t = s.argument t)
    (howner : ∀ t, t ≠ u → ∀ m, s.userMutex m = some t → s'.userMutex m = some t) (ht : t ≠ u) :
    Leaves s s' t where
  place := hplace t ht
  mutex := by rw [hmutex]
  queued := by rw [hqueue]
  semaphore := hsemaphore t ht
  removed := hremoved t ht
  posted := by rw [posted_same hu hmutex hplace]
  argument := hargument t ht
  owner := howner t ht

theorem leaves_inside (hm : s.mutex = none ∨ s.mutex = some u)
    (hm' : s'.mutex = none ∨ s'.mutex = some u) (hp : target (s.place u) = none)
    (hp' : target (s'.place u) = none) (hplace : ∀ t, t ≠ u → s'.place t = s.place t)
    (hqueue : ∀ t, t ≠ u → (t ∈ s'.queue ↔ t ∈ s.queue))
    (hsemaphore : ∀ t, t ≠ u → s'.semaphore t = s.semaphore t)
    (hremoved : s'.removed = s.removed) (hargument : s'.argument = s.argument)
    (howner : ∀ t, t ≠ u → ∀ m, s.userMutex m = some t → s'.userMutex m = some t) (ht : t ≠ u) :
    Leaves s s' t := by
  have hother : ∀ {s : Owned}, s.mutex = none ∨ s.mutex = some u → s.mutex ≠ some t := by
    rintro s (hm | hm) <;> rw [hm]
    · simp
    · simpa using ht.symm
  exact {
    place := hplace t ht
    mutex := iff_of_false (hother hm') (hother hm)
    queued := hqueue t ht
    semaphore := hsemaphore t ht
    removed := by rw [hremoved]
    posted := by rw [posted_none_of hm' hp', posted_none_of hm hp]
    argument := by rw [hargument]
    owner := howner t ht }

theorem Good.alone (h : Good s) (hp : s.place u = p) (hp' : s'.place u = q)
    (hholds : holds p = false) (hmutex : s'.mutex = s.mutex)
    (hlinks : Represents s'.links s.queue) (hqueue : s'.queue = s.queue)
    (harrival : s'.arrival = s.arrival) (harrivals : s'.arrivals = s.arrivals)
    (hplace : ∀ t, t ≠ u → s'.place t = s.place t)
    (hsemaphore : ∀ t, t ≠ u → s'.semaphore t = s.semaphore t)
    (hremoved : ∀ t, t ≠ u → s'.removed t = s.removed t)
    (hargument : ∀ t, t ≠ u → s'.argument t = s.argument t)
    (howner : ∀ t, t ≠ u → ∀ m, s.userMutex m = some t → s'.userMutex m = some t)
    (hwaking : Waking s.queue q)
    (hself : Fits s u p → s.mutex ≠ some u → posted s' = posted s → Fits s' u q) : Good s' := by
  have hu : Fits s u p := hp ▸ h.fits u
  have hfree := hu.not_holds hholds
  refine ⟨fun t => ?_, ?_, ?_, ?_, fun t => ?_⟩
  · by_cases ht : t = u
    · subst ht
      rw [hp']
      exact hself hu hfree (posted_same hfree hmutex hplace)
    · exact (h.fits t).of_leaves
        (leaves_private hfree hmutex hplace hqueue hsemaphore hremoved hargument howner ht)
  · rw [hqueue]
    exact hlinks
  · rw [hqueue, harrival]
    exact h.sorted
  · rw [hqueue, harrival, harrivals]
    exact h.arrived
  · rw [hqueue]
    by_cases ht : t = u
    · rwa [ht, hp']
    · rw [hplace t ht]
      exact h.waking t

theorem Good.inside (h : Good s) (hp : s.place u = p) (hp' : s'.place u = q)
    (hm : s.mutex = none ∨ s.mutex = some u) (hm' : s'.mutex = none ∨ s'.mutex = some u)
    (ht : target p = none) (ht' : target q = none) (hlinks : s'.links = s.links)
    (hqueue : s'.queue = s.queue) (harrival : s'.arrival = s.arrival)
    (harrivals : s'.arrivals = s.arrivals) (hplace : ∀ t, t ≠ u → s'.place t = s.place t)
    (hsemaphore : ∀ t, t ≠ u → s'.semaphore t = s.semaphore t) (hremoved : s'.removed = s.removed)
    (hargument : s'.argument = s.argument)
    (howner : ∀ t, t ≠ u → ∀ m, s.userMutex m = some t → s'.userMutex m = some t)
    (hwaking : Waking s.queue q)
    (hself : Fits s u p → posted s = none → posted s' = none → Fits s' u q) : Good s' := by
  refine ⟨fun t => ?_, ?_, ?_, ?_, fun t => ?_⟩
  · by_cases htu : t = u
    · subst htu
      rw [hp']
      exact hself (hp ▸ h.fits t) (posted_none_of hm (hp ▸ ht)) (posted_none_of hm' (hp' ▸ ht'))
    · exact (h.fits t).of_leaves (leaves_inside hm hm' (hp ▸ ht) (hp' ▸ ht') hplace
        (fun _ _ => by rw [hqueue]) hsemaphore hremoved hargument howner htu)
  · rw [hlinks, hqueue]
    exact h.represents
  · rw [hqueue, harrival]
    exact h.sorted
  · rw [hqueue, harrival, harrivals]
    exact h.arrived
  · rw [hqueue]
    by_cases htu : t = u
    · rwa [htu, hp']
    · rw [hplace t htu]
      exact h.waking t

theorem waking_of_not_holds (hp : holds p = false) (queue : List ThreadId) : Waking queue p := by
  cases p <;> simp_all [holds, Waking]

theorem inWait_of_waits (hp : waits p = true) : inWait p = true ∧ outcome p = none ∧
    unqueued p = false ∧ p.isUser = false := by
  cases p <;> simp_all [waits, inWait, outcome, unqueued, Place.isUser]

theorem Good.within (h : Good s) (hp : s.place u = p) (hp' : s'.place u = q)
    (hm : s.mutex = some u) (hm' : s'.mutex = none ∨ s'.mutex = some u) (ht : target p = none)
    (ht' : target q = none) (hlinks : Represents s'.links s'.queue)
    (hsorted : s'.queue.Pairwise fun a b => s'.arrival a < s'.arrival b)
    (harrived : ∀ t ∈ s'.queue, s'.arrival t < s'.arrivals)
    (hplace : ∀ t, t ≠ u → s'.place t = s.place t)
    (hqueue : ∀ t, t ≠ u → (t ∈ s'.queue ↔ t ∈ s.queue))
    (hsemaphore : ∀ t, t ≠ u → s'.semaphore t = s.semaphore t) (hremoved : s'.removed = s.removed)
    (hargument : s'.argument = s.argument) (howner : s'.userMutex = s.userMutex)
    (hwaking : Waking s'.queue q)
    (hself : Fits s u p → posted s = none → posted s' = none → Fits s' u q) : Good s' := by
  refine ⟨fun t => ?_, hlinks, hsorted, harrived, fun t => ?_⟩
  · by_cases htu : t = u
    · subst htu
      rw [hp']
      exact hself (hp ▸ h.fits t) (posted_none_of (Or.inr hm) (hp ▸ ht))
        (posted_none_of hm' (hp' ▸ ht'))
    · exact (h.fits t).of_leaves (leaves_inside (Or.inr hm) hm' (hp ▸ ht) (hp' ▸ ht') hplace hqueue
        hsemaphore hremoved hargument (fun _ _ _ ho => howner ▸ ho) htu)
  · by_cases htu : t = u
    · rwa [htu, hp']
    · rw [hplace t htu]
      refine waking_of_not_holds ?_ _
      have := (h.fits t).mutex
      rw [hm] at this
      simpa [Ne.symm htu] using this

theorem user_place (hp : p.isUser = true) : holds p = false ∧ waits p = false ∧
    inWait p = false ∧ failure p = none ∧ owns p = false := by
  cases p <;> simp_all [Place.isUser, holds, waits, inWait, failure, owns]

theorem good_callWait (h : Good s) {m : MutexId} {timed : Bool}
    (hs : callWait owners s u m timed = some s') : Good s' := by
  unfold callWait at hs
  split at hs
  · rename_i hguard
    simp only [Bool.and_eq_true, decide_eq_true_eq] at hguard
    obtain ⟨hp, ho⟩ := hguard
    rw [owners_owner] at ho
    cases hs
    obtain ⟨hholds, hwaits, hin, _, _⟩ := user_place hp
    refine h.alone (q := .create) rfl (by simp [State.go]) hholds rfl h.represents rfl rfl rfl
      (fun t ht => by simp [State.go, ht]) (fun _ _ => rfl) (fun t ht => by simp [ht])
      (fun t ht => by simp [ht]) (fun _ _ _ h => h) trivial fun hf hfree hposted => ?_
    obtain ⟨hqueue, htarget⟩ := hf.not_waiting hwaits
    exact .outside (by simp [State.go, hfree, holds]) hqueue (hf.no_semaphore hin)
      (by rwa [hposted]) rfl rfl (by simp) (by simp [outcome]) rfl (by simp)
      (by simp [State.go, ho]) rfl
  · cases hs

theorem good_callWake (h : Good s) {all : Bool} (hs : callWake s u all = some s') : Good s' := by
  unfold callWake at hs
  split at hs
  · rename_i hp
    cases hs
    obtain ⟨hholds, hwaits, hin, _, _⟩ := user_place hp
    refine h.alone (q := .wakeEnter all) rfl (by simp [State.go]) hholds rfl h.represents rfl rfl
      rfl (fun t ht => by simp [State.go, ht]) (fun _ _ => rfl) (fun _ _ => rfl) (fun _ _ => rfl)
      (fun _ _ _ h => h) trivial fun hf hfree hposted => ?_
    obtain ⟨hqueue, htarget⟩ := hf.not_waiting hwaits
    exact .outside (by simp [State.go, hfree, holds]) hqueue (hf.no_semaphore hin)
      (by rwa [hposted]) rfl rfl (by simp [unqueued]) (by simp [outcome]) rfl (by simp)
      (by simp [owns]) rfl
  · cases hs

theorem good_setMutex (h : Good s) (hp : (s.place u).isUser = true) {m : MutexId}
    {o : Option ThreadId} (ho : s.userMutex m = none ∨ s.userMutex m = some u) :
    Good (s.setMutex m o) := by
  obtain ⟨hholds, hwaits, hin, hfail, hown⟩ := user_place hp
  refine h.alone (q := s.place u) rfl rfl hholds rfl h.represents rfl rfl rfl (fun _ _ => rfl) (fun _ _ => rfl)
    (fun _ _ => rfl) (fun _ _ => rfl) (fun t ht k hk => ?_) (h.waking u) fun hf hfree hposted => ?_
  · have hkm : k ≠ m := by
      rintro rfl
      rw [hk] at ho
      rcases ho with ho | ho <;> cases ho
      exact ht rfl
    simpa [State.setMutex, hkm] using hk
  · obtain ⟨hqueue, htarget⟩ := hf.not_waiting hwaits
    exact .outside hf.mutex hqueue (hf.no_semaphore hin) (by rwa [hposted]) hwaits hin hf.early
      hf.decided hfail hf.returned (by simp [hown]) hf.unlocked

theorem good_createFails (h : Good s) (hs : createFails s u = some s') : Good s' := by
  unfold createFails at hs
  split at hs
  · rename_i hp
    cases hs
    refine h.alone (q := .returned eagain true) hp (by simp [State.go]) rfl rfl h.represents rfl
      rfl rfl (fun t ht => by simp [State.go, ht]) (fun _ _ => rfl) (fun _ _ => rfl)
      (fun _ _ => rfl) (fun _ _ _ h => h) trivial fun hf hfree hposted => ?_
    obtain ⟨hqueue, htarget⟩ := hf.not_waiting rfl
    have hremoved := hf.early rfl
    exact .outside (by simp [State.go, hfree, holds]) hqueue (hf.no_semaphore rfl)
      (by rwa [hposted]) rfl rfl (by simp [unqueued]) (by simp [outcome]) rfl
      (by simp [State.go, hremoved]) (by simp [owns]) rfl
  · cases hs

theorem good_sleepFails (h : Good s) {aborted : Bool} (hs : sleepFails s u aborted = some s') :
    Good s' := by
  unfold sleepFails at hs
  split at hs
  · rename_i hguard
    simp only [Bool.and_eq_true, decide_eq_true_eq] at hguard
    cases hs
    refine h.alone (q := .recheck (if aborted then einval else etimedout) true) hguard.1
      (by simp [State.go]) rfl rfl h.represents rfl
      rfl rfl (fun t ht => by simp [State.go, ht]) (fun _ _ => rfl) (fun _ _ => rfl)
      (fun _ _ => rfl) (fun _ _ _ h => h) trivial fun hf hfree hposted => ?_
    exact hf.advance (by simp [State.go, hfree, holds]) Iff.rfl rfl rfl (by rw [hposted]) rfl rfl rfl
      (by simp [unqueued]) (by cases aborted <;> simp [failure]) (by simp) (by simp [owns]) rfl
  · cases hs

theorem good_relockFails (h : Good s) {code : Nat} (hs : relockFails s u code = some s') :
    Good s' := by
  unfold relockFails at hs
  split at hs
  · rename_i status hp
    split at hs
    · rename_i hcode
      cases hs
      refine h.alone (q := .returned code false) hp (by simp [State.go]) rfl rfl h.represents rfl
        rfl rfl (fun t ht => by simp [State.go, ht]) (fun _ _ => rfl) (fun _ _ => rfl)
        (fun _ _ => rfl) (fun _ _ _ h => h) trivial fun hf hfree hposted => ?_
      obtain ⟨hqueue, htarget⟩ := hf.not_waiting rfl
      exact .outside (by simp [State.go, hfree, holds]) hqueue (hf.no_semaphore rfl)
        (by rwa [hposted]) rfl rfl (by simp [unqueued]) (by simp [outcome]) rfl
        (by rintro _ _ ⟨⟩; simp [hcode]) (by simp [owns]) rfl
    · cases hs
  · cases hs

section
variable {status : Nat} {unlocked : Bool}

theorem unlocked_eq {f : Bool → Place} (hf : backsOut (f false) = true)
    (h : backsOut (f unlocked) = false) : unlocked = true := by
  cases unlocked with
  | false =>
    rw [hf] at h
    cases h
  | true => rfl

theorem good_create (h : Good s) (hp : s.place u = .create)
    (hs : conditionWaitCommon owners s u = some s') : Good s' := by
  have hu := h.fits u
  rw [hp] at hu
  simp only [conditionWaitCommon, hp] at hs
  cases hs
  obtain ⟨hqueue, htarget⟩ := hu.not_waiting rfl
  refine h.alone (q := .enter) hp (by simp [State.go]) rfl rfl
    (h.represents.reset hqueue) rfl rfl rfl (fun t ht => by simp [State.go, State.setSemaphore, ht])
    (fun t ht => by simp [State.go, State.setSemaphore, ht]) (fun _ _ => rfl)
    (fun _ _ => rfl) (fun _ _ _ h => h) trivial fun hf hfree hposted => ?_
  have hremoved := hf.early rfl
  exact ⟨by simp [State.go, State.setSemaphore, hfree, holds], by simp [State.go, State.setSemaphore, hqueue, waits],
    by simp [State.go, State.setSemaphore, inWait],
    fun _ => by rw [hposted]; simp [State.go, State.setSemaphore, outcome, htarget, hremoved], fun hx => absurd (hposted ▸ hx) htarget,
    fun _ => hremoved, by simp [outcome], by simp [failure], by simp, fun _ => hf.owned rfl, rfl⟩

theorem good_enter (h : Good s) (hp : s.place u = .enter)
    (hs : conditionWaitCommon owners s u = some s') : Good s' := by
  simp only [conditionWaitCommon, hp] at hs
  obtain ⟨x, hget, rfl⟩ := Option.map_eq_some_iff.mp hs
  obtain ⟨hm, rfl⟩ := owners_get hget
  refine h.inside (q := .append) hp (by simp [State.go]) (Or.inl hm) (Or.inr rfl) rfl rfl rfl
    rfl rfl rfl (fun t ht => by simp [State.go, ht]) (fun _ _ => rfl) rfl rfl
    (fun _ _ _ h => h) trivial fun hf hn hn' => ?_
  exact hf.advance (by simp [State.go, holds]) Iff.rfl rfl rfl (by rw [hn, hn']) rfl rfl rfl
    (fun _ => rfl) (by simp [failure]) (by simp) (fun _ => hf.owned rfl) rfl

theorem good_append (h : Good s) (hp : s.place u = .append)
    (hs : conditionWaitCommon owners s u = some s') : Good s' := by
  have hu := h.fits u
  rw [hp] at hu
  simp only [conditionWaitCommon, hp] at hs
  cases hs
  have hm := hu.mutex.mpr rfl
  obtain ⟨hqueue, htarget⟩ := hu.not_waiting rfl
  have hremoved := hu.early rfl
  have harrival : ∀ t ∈ s.queue, Function.update s.arrival u s.arrivals t = s.arrival t := by
    intro t ht
    refine Function.update_of_ne ?_ ..
    rintro rfl
    exact hqueue ht
  refine h.within (q := .unlock) hp (by simp [State.go]) hm (Or.inr hm) rfl rfl
    (h.represents.append hqueue) ?_ (fun t ht => ?_)
    (fun t ht => by simp [State.go, appendWaiter, ht])
    (fun t ht => by simp [State.go, appendWaiter, ht]) (fun _ _ => rfl) rfl rfl rfl trivial
    fun hf hn hn' => ?_
  · refine List.pairwise_append.mpr ⟨?_, by simp, fun a ha b hb => ?_⟩
    · refine h.sorted.imp_of_mem fun {a b} ha hb hab => ?_
      change Function.update s.arrival u s.arrivals a < Function.update s.arrival u s.arrivals b
      rwa [harrival a ha, harrival b hb]
    · obtain rfl := List.mem_singleton.mp hb
      change Function.update s.arrival b s.arrivals a < Function.update s.arrival b s.arrivals b
      rw [harrival a ha, Function.update_self]
      exact h.arrived a ha
  · change Function.update s.arrival u s.arrivals t < s.arrivals + 1
    rcases List.mem_append.mp ht with ht | ht
    · rw [harrival t ht]
      exact Nat.lt_succ_of_lt (h.arrived t ht)
    · rw [List.mem_singleton.mp ht, Function.update_self]
      exact Nat.lt_succ_self _
  · have htoken := hf.token rfl
    rw [hn] at htoken
    exact ⟨by simp [State.go, appendWaiter, hm, holds],
      by simp [State.go, appendWaiter, waits, hremoved],
      hf.semaphore, fun _ => by rw [hn']; exact htoken, by simp [hn'], by simp [unqueued],
      by simp [outcome], by simp [failure], by simp, fun _ => hf.owned rfl, rfl⟩

theorem good_unlock (h : Good s) (hp : s.place u = .unlock)
    (hs : conditionWaitCommon owners s u = some s') : Good s' := by
  have hu := h.fits u
  rw [hp] at hu
  simp only [conditionWaitCommon, hp] at hs
  rw [if_pos (owners_owner.trans (hu.owned rfl))] at hs
  cases hs
  have hm := hu.mutex.mpr rfl
  refine h.inside (q := .leave true) hp (by simp [State.go]) (Or.inr hm) (Or.inr hm) rfl rfl rfl
    rfl rfl rfl (fun t ht => by simp [State.go, State.setMutex, ht]) (fun _ _ => rfl) rfl rfl
    (fun t ht m hmt => ?_) trivial fun hf hn hn' => ?_
  · have hne : m ≠ s.argument u := by
      rintro rfl
      rw [hu.owned rfl] at hmt
      exact ht (Option.some.inj hmt).symm
    simpa [State.go, State.setMutex, hne] using hmt
  · exact hf.advance (by simp [State.go, State.setMutex, holds, hm]) Iff.rfl rfl rfl
      (by rw [hn, hn']) rfl rfl rfl (by simp [unqueued]) (by simp [failure]) (by simp)
      (by simp [owns]) rfl

theorem good_leave (h : Good s) (hp : s.place u = .leave unlocked)
    (hs : conditionWaitCommon owners s u = some s') : Good s' := by
  have hu := h.fits u
  rw [hp] at hu
  simp only [conditionWaitCommon, hp] at hs
  have hm := hu.mutex.mpr rfl
  obtain rfl := unlocked_eq (f := .leave) rfl hu.unlocked
  cases hs
  refine h.inside (q := .sleep) hp (by simp [State.go]) (Or.inr hm) (Or.inl rfl) rfl rfl rfl
    rfl rfl rfl (fun t ht => by simp [State.go, ht]) (fun _ _ => rfl) rfl rfl
    (fun _ _ _ h => h) trivial fun hf hn hn' => ?_
  exact hf.advance (by simp [State.go, holds]) Iff.rfl rfl rfl (by rw [hn, hn']) rfl rfl rfl
    (by simp [unqueued]) (by simp [failure]) (by simp) (by simp [owns]) rfl

theorem good_sleep (h : Good s) (hp : s.place u = .sleep)
    (hs : conditionWaitCommon owners s u = some s') : Good s' := by
  simp only [conditionWaitCommon, hp] at hs
  obtain ⟨n, hget, rfl⟩ := Option.map_eq_some_iff.mp hs
  have hn := owners_token hget
  refine h.alone (q := .destroy 0 true) hp (by simp [State.go]) rfl rfl
    h.represents rfl rfl rfl (fun t ht => by simp [State.go, State.setSemaphore, ht])
    (fun t ht => by simp [State.go, State.setSemaphore, ht]) (fun _ _ => rfl)
    (fun _ _ => rfl) (fun _ _ _ h => h) trivial fun hf hfree hposted => ?_
  have htoken := hf.token rfl
  have hle := (s.removed u).toNat_le
  simp only [hn, Option.getD_some, outcome, reduceCtorEq, if_false] at htoken
  have hremoved : s.removed u = true := by
    cases hr : s.removed u with
    | true => rfl
    | false => simp [hr] at htoken
  have htarget : posted s ≠ some u := by
    intro hx
    simp [hx] at htoken
    omega
  have hqueue : u ∉ s.queue := by simp [hf.queued, hremoved]
  simp only [if_neg htarget, hremoved, Bool.toNat_true] at htoken
  exact ⟨by simp [State.go, State.setSemaphore, hfree, holds],
    by simp [State.go, State.setSemaphore, hqueue, waits],
    by simp [State.go, State.setSemaphore, inWait],
    fun _ => by
      rw [hposted]
      simp [State.go, State.setSemaphore, outcome, htarget, hremoved]
      omega,
    fun hx => absurd (hposted ▸ hx) htarget, by simp [unqueued],
    by simp [State.go, State.setSemaphore, outcome, hremoved], by simp [failure], by simp,
    by simp [owns], rfl⟩

theorem good_recheck (h : Good s) (hp : s.place u = .recheck status unlocked)
    (hs : conditionWaitCommon owners s u = some s') : Good s' := by
  have hu := h.fits u
  rw [hp] at hu
  simp only [conditionWaitCommon, hp] at hs
  obtain rfl := unlocked_eq (f := .recheck status) rfl hu.unlocked
  obtain ⟨x, hget, rfl⟩ := Option.map_eq_some_iff.mp hs
  obtain ⟨hm, rfl⟩ := owners_get hget
  refine h.inside (q := .settle status true) hp (by simp [State.go]) (Or.inl hm) (Or.inr rfl)
    rfl rfl rfl rfl rfl rfl (fun t ht => by simp [State.go, ht]) (fun _ _ => rfl) rfl rfl
    (fun _ _ _ h => h) trivial fun hf hn hn' => ?_
  exact hf.advance (by simp [State.go, holds]) Iff.rfl rfl rfl (by rw [hn, hn']) rfl rfl rfl
    (by simp [unqueued]) hf.failed (by simp) (by simp [owns]) rfl

theorem good_settle (h : Good s) (hp : s.place u = .settle status unlocked)
    (hs : conditionWaitCommon owners s u = some s') : Good s' := by
  have hu := h.fits u
  rw [hp] at hu
  simp only [conditionWaitCommon, hp] at hs
  have hm := hu.mutex.mpr rfl
  have hstatus : status ≠ 0 := by simpa [failure] using hu.failed
  obtain rfl := unlocked_eq (f := .settle status) rfl hu.unlocked
  have htoken := hu.token rfl
  rw [posted_none_of (Or.inr hm) (by rw [hp]; rfl)] at htoken
  simp only [outcome, reduceCtorEq, if_false, Nat.add_zero] at htoken
  split at hs
  · -- nobody has removed the waiter: it gives up
    rename_i hlinked
    cases hs
    have hin : u ∈ s.queue := (h.represents.linked u).mp (by simpa using hlinked)
    have hremoved : s.removed u = false := (hu.queued.mp hin).2
    rw [hremoved] at htoken
    refine h.within (q := .resume status true) hp (by simp [State.go]) hm (Or.inr hm) rfl rfl
      h.represents.erase (h.sorted.sublist List.erase_sublist)
      (fun t ht => h.arrived t (List.mem_of_mem_erase ht))
      (fun t ht => by simp [State.go, removeWaiter, ht])
      (fun t ht => List.mem_erase_of_ne ht) (fun _ _ => rfl) rfl rfl rfl trivial
      fun hf hn hn' => ?_
    have hout : u ∉ s.queue.erase u := h.represents.nodup.not_mem_erase
    exact ⟨by simp [State.go, removeWaiter, hm, holds],
      by simp [State.go, removeWaiter, waits, hout], hf.semaphore,
      fun _ => by
        rw [hn']
        simp only [State.go, removeWaiter, outcome, Option.some.injEq, hstatus, reduceCtorEq, if_false, hremoved]
        exact htoken,
      by simp [hn'], by simp [unqueued],
      by simp [State.go, removeWaiter, outcome, hremoved, hstatus], by simp [failure], by simp,
      by simp [owns], rfl⟩
  · -- it has been removed, so the token is there
    rename_i hlinked
    have hout : u ∉ s.queue := fun hin => hlinked (by simp [(h.represents.linked u).mpr hin])
    have hremoved : s.removed u = true := by simpa [hu.queued, waits] using hout
    rw [hremoved] at htoken
    have hone : s.semaphore u = some 1 := by
      cases hsem : s.semaphore u <;> simp_all
    have htaken : (s.semaphore u).bind owners.semaphoreGet = some 0 := by
      rw [hone]
      rfl
    rw [htaken] at hs
    cases hs
    refine h.within (q := .resume 0 true) hp (by simp [State.go]) hm (Or.inr hm) rfl rfl
      h.represents h.sorted h.arrived (fun t ht => by simp [State.go, State.setSemaphore, ht])
      (fun _ _ => Iff.rfl) (fun t ht => by simp [State.go, State.setSemaphore, ht]) rfl rfl rfl
      trivial fun hf hn hn' => ?_
    exact ⟨by simp [State.go, State.setSemaphore, hm, holds],
      by simp [State.go, State.setSemaphore, waits, hout],
      by simp [State.go, State.setSemaphore, inWait],
      fun _ => by
        rw [hn']
        simp [State.go, State.setSemaphore, outcome, hremoved],
      by simp [hn'], by simp [unqueued], by simp [State.go, State.setSemaphore, outcome, hremoved],
      by simp [failure], by simp, by simp [owns], rfl⟩

theorem good_resume (h : Good s) (hp : s.place u = .resume status unlocked)
    (hs : conditionWaitCommon owners s u = some s') : Good s' := by
  have hu := h.fits u
  rw [hp] at hu
  simp only [conditionWaitCommon, hp] at hs
  obtain rfl := unlocked_eq (f := .resume status) rfl hu.unlocked
  have hm := hu.mutex.mpr rfl
  cases hs
  refine h.inside (q := .destroy status true) hp (by simp [State.go]) (Or.inr hm) (Or.inl rfl)
    rfl rfl rfl rfl rfl rfl (fun t ht => by simp [State.go, ht]) (fun _ _ => rfl) rfl rfl
    (fun _ _ _ h => h) trivial fun hf hn hn' => ?_
  exact hf.advance (by simp [State.go, holds]) Iff.rfl rfl rfl (by rw [hn, hn']) rfl rfl rfl
    (by simp [unqueued]) (by simp [failure]) (by simp) (by simp [owns]) rfl

theorem good_destroy (h : Good s) (hp : s.place u = .destroy status unlocked)
    (hs : conditionWaitCommon owners s u = some s') : Good s' := by
  have hu := h.fits u
  rw [hp] at hu
  simp only [conditionWaitCommon, hp] at hs
  obtain rfl := unlocked_eq (f := .destroy status) rfl hu.unlocked
  cases hs
  refine h.alone (q := .relock status) hp (by simp [State.go]) rfl rfl h.represents rfl rfl rfl
    (fun t ht => by simp [State.go, State.setSemaphore, ht])
    (fun t ht => by simp [State.go, State.setSemaphore, ht]) (fun _ _ => rfl)
    (fun _ _ => rfl) (fun _ _ _ h => h) trivial fun hf hfree hposted => ?_
  obtain ⟨hqueue, htarget⟩ := hf.not_waiting rfl
  exact .outside (by simp [State.go, State.setSemaphore, hfree, holds]) hqueue
    (by simp [State.go, State.setSemaphore]) (by rwa [hposted]) rfl rfl (by simp [unqueued])
    hf.decided rfl (by simp) (by simp [owns]) rfl

theorem good_relock (h : Good s) (hp : s.place u = .relock status)
    (hs : conditionWaitCommon owners s u = some s') : Good s' := by
  simp only [conditionWaitCommon, hp] at hs
  obtain ⟨x, hlock, rfl⟩ := Option.map_eq_some_iff.mp hs
  obtain ⟨hnone, rfl⟩ := owners_lock hlock
  refine h.alone (q := .returned status true) hp (by simp [State.go]) rfl rfl h.represents rfl
    rfl rfl (fun t ht => by simp [State.go, State.setMutex, ht]) (fun _ _ => rfl) (fun _ _ => rfl)
    (fun _ _ => rfl) (fun t ht m hmt => ?_) trivial fun hf hfree hposted => ?_
  · have hne : m ≠ s.argument u := by
      rintro rfl
      simp [hnone] at hmt
    simpa [State.go, State.setMutex, hne] using hmt
  · obtain ⟨hqueue, htarget⟩ := hf.not_waiting rfl
    have hdecided := hf.decided status rfl
    exact .outside (by simp [State.go, State.setMutex, hfree, holds]) hqueue
      (hf.no_semaphore rfl) (by rwa [hposted]) rfl rfl (by simp [unqueued]) (by simp [outcome])
      rfl (by rintro _ _ ⟨⟩; simpa [State.go, State.setMutex] using hdecided) (by simp [owns]) rfl

end

theorem good_wait (h : Good s) (hs : conditionWaitCommon owners s u = some s') : Good s' := by
  cases hp : s.place u with
  | create => exact good_create h hp hs
  | enter => exact good_enter h hp hs
  | append => exact good_append h hp hs
  | unlock => exact good_unlock h hp hs
  | leave _ => exact good_leave h hp hs
  | sleep => exact good_sleep h hp hs
  | recheck _ _ => exact good_recheck h hp hs
  | settle _ _ => exact good_settle h hp hs
  | resume _ _ => exact good_resume h hp hs
  | destroy _ _ => exact good_destroy h hp hs
  | relock _ => exact good_relock h hp hs
  | _ =>
    simp only [conditionWaitCommon, hp] at hs
    cases hs

theorem good_remove (h : Good s) {all : Bool} {found done queue : List ThreadId}
    (hp : s.place u = .wake all found done) (hq : s.queue = w :: queue) :
    Good ({ removeWaiter s w with
      removed := Function.update s.removed w true }.go u (.post all found done w)) := by
  have hu := h.fits u
  rw [hp] at hu
  have hm := hu.mutex.mpr rfl
  have hn : posted s = none := posted_none_of (Or.inr hm) (by rw [hp]; rfl)
  have hw := h.fits w
  obtain ⟨hwaits, hwr⟩ := hw.queued.mp (by simp [hq])
  obtain ⟨hin, hout, hun, huser⟩ := inWait_of_waits hwaits
  have hwu : w ≠ u := by
    rintro rfl
    simp [hp, waits] at hwaits
  have hnodup := h.represents.nodup
  have herase : s.queue.erase w = queue := by rw [hq, List.erase_cons_head]
  have hposted : posted ({ removeWaiter s w with
      removed := Function.update s.removed w true }.go u (.post all found done w)) = some w := by
    simp [posted, State.go, removeWaiter, hm, target]
  refine ⟨fun t => ?_, h.represents.erase, h.sorted.sublist List.erase_sublist,
    fun t ht => h.arrived t (List.mem_of_mem_erase ht), fun t => ?_⟩
  · by_cases htu : t = u
    · subst htu
      simp only [State.go, Function.update_self]
      exact .outside (by simp [removeWaiter, hm, holds])
        (fun hin => (hu.not_waiting rfl).1 (List.mem_of_mem_erase hin)) (hu.no_semaphore rfl)
        (fun hx => hwu (Option.some.inj (hposted.symm.trans hx))) rfl rfl (by simp [unqueued]) (by simp [outcome]) rfl (by simp)
        (by simp [owns]) rfl
    · by_cases htw : t = w
      · subst htw
        have hplace : ({ removeWaiter s t with
            removed := Function.update s.removed t true }.go u (.post all found done t)).place t =
            s.place t := by simp [State.go, removeWaiter, hwu]
        rw [hplace]
        have htoken := hw.token hin
        rw [hn, hwr] at htoken
        exact {
          mutex := hw.mutex
          queued := iff_of_false (by
            change t ∉ s.queue.erase t
            exact hnodup.not_mem_erase) (by simp [State.go])
          semaphore := hw.semaphore
          token := fun _ => by
            rw [hposted]
            simp only [hout, reduceCtorEq, if_false, if_true] at htoken ⊢
            simp only [State.go, removeWaiter, Function.update_self]
            simp at htoken ⊢
            exact htoken
          targeted := fun _ => hwaits
          early := by simp [hun]
          decided := by simp [hout]
          failed := hw.failed
          returned := fun code relocked hr => by simp [hr, Place.isUser] at huser
          owned := hw.owned
          unlocked := hw.unlocked }
      · refine (h.fits t).of_leaves ⟨by simp [State.go, removeWaiter, htu], Iff.rfl,
          List.mem_erase_of_ne htw, rfl, by simp [State.go, htw], ?_, rfl, fun _ h => h⟩
        rw [hposted, hn]
        simp [Ne.symm htw]
  · by_cases htu : t = u
    · subst htu
      have hwaking := h.waking t
      rw [hp, hq] at hwaking
      simp only [State.go, Function.update_self, removeWaiter, herase]
      exact hwaking
    · refine waking_of_not_holds ?_ _
      have := (h.fits t).mutex
      rw [hm] at this
      simpa [State.go, removeWaiter, htu, Ne.symm htu] using this

theorem Good.target_waits (h : Good s) {all : Bool} {found done : List ThreadId}
    (hp : s.place u = .post all found done w) : posted s = some w ∧ waits (s.place w) = true := by
  have hm := (h.fits u).mutex.mpr (by rw [hp]; rfl)
  have hn : posted s = some w := by simp [posted, hm, hp, target]
  exact ⟨hn, (h.fits w).targeted hn⟩

theorem good_post (h : Good s) {all : Bool} {found done : List ThreadId} {n : Nat}
    (hp : s.place u = .post all found done w) (hsem : s.semaphore w = some n)
    (hp' : q = if all then .wake all found (done ++ [w]) else .wakeLeave all found (done ++ [w])) :
    Good ((s.setSemaphore w (some (n + 1))).go u q) := by
  have hu := h.fits u
  rw [hp] at hu
  have hm := hu.mutex.mpr rfl
  obtain ⟨hn, hwaits⟩ := h.target_waits hp
  have hw := h.fits w
  obtain ⟨hin, hout, hun, huser⟩ := inWait_of_waits hwaits
  have hwu : w ≠ u := by
    rintro rfl
    simp [hp, waits] at hwaits
  have hwaking := h.waking u
  rw [hp] at hwaking
  obtain ⟨hfound, hdone⟩ := hwaking
  have hposted : posted ((s.setSemaphore w (some (n + 1))).go u q) = none := by
    refine posted_none_of (u := u) (Or.inr hm) ?_
    simp only [State.go, Function.update_self, hp']
    cases all <;> rfl
  have hplace : ∀ t, t ≠ u → ((s.setSemaphore w (some (n + 1))).go u q).place t = s.place t :=
    fun t ht => by simp [State.go, State.setSemaphore, ht]
  refine ⟨fun t => ?_, h.represents, h.sorted, h.arrived, fun t => ?_⟩
  · by_cases htu : t = u
    · subst htu
      obtain ⟨hqueue, _⟩ := hu.not_waiting rfl
      have hnone := hu.no_semaphore rfl
      simp only [State.go, Function.update_self]
      have htarget : posted ((s.setSemaphore w (some (n + 1))).go t q) ≠ some t := by
        rw [hposted]
        simp
      subst hp'
      cases all
      · exact .outside (by simp [State.setSemaphore, hm, holds]) hqueue
          (by simp [State.setSemaphore, hwu.symm, hnone]) htarget rfl rfl (by simp [unqueued])
          (by simp [outcome]) rfl (by simp) (by simp [owns]) rfl
      · exact .outside (by simp [State.setSemaphore, hm, holds]) hqueue
          (by simp [State.setSemaphore, hwu.symm, hnone]) htarget rfl rfl (by simp [unqueued])
          (by simp [outcome]) rfl (by simp) (by simp [owns]) rfl
    · by_cases htw : t = w
      · subst htw
        rw [hplace t htu]
        have htoken := hw.token hin
        rw [hn, hsem] at htoken
        exact {
          mutex := hw.mutex
          queued := hw.queued
          semaphore := by simp [State.go, State.setSemaphore, hin]
          token := fun _ => by
            rw [hposted]
            simpa [State.go, State.setSemaphore, hout] using htoken
          targeted := by simp [hposted]
          early := hw.early
          decided := hw.decided
          failed := hw.failed
          returned := hw.returned
          owned := hw.owned
          unlocked := hw.unlocked }
      · refine (h.fits t).of_leaves ⟨hplace t htu, Iff.rfl, Iff.rfl,
          by simp [State.go, State.setSemaphore, htw], rfl, ?_, rfl, fun _ h => h⟩
        rw [hposted, hn]
        simp [Ne.symm htw]
  · by_cases htu : t = u
    · subst htu
      simp only [State.go, Function.update_self, hp']
      cases all with
      | true => exact ⟨by simpa [State.setSemaphore] using hfound, by simp⟩
      | false =>
        obtain rfl := hdone rfl
        exact ⟨by simpa [State.setSemaphore] using hfound, by simp [hfound]⟩
    · refine waking_of_not_holds ?_ _
      have := (h.fits t).mutex
      rw [hm] at this
      rw [hplace t htu]
      simpa [Ne.symm htu] using this

theorem good_wake (h : Good s) (hs : conditionWake owners s u = some s') : Good s' := by
  have hu := h.fits u
  have hwaking := h.waking u
  unfold conditionWake at hs
  cases hp : s.place u <;> simp only [hp] at hs hu hwaking
  case wakeEnter all =>
    obtain ⟨x, hget, rfl⟩ := Option.map_eq_some_iff.mp hs
    obtain ⟨hm, rfl⟩ := owners_get hget
    refine h.inside (q := .wake all s.queue []) hp (by simp [State.go]) (Or.inl hm) (Or.inr rfl)
      rfl rfl rfl rfl rfl rfl (fun t ht => by simp [State.go, ht]) (fun _ _ => rfl) rfl rfl
      (fun _ _ _ h => h) ⟨by simp, by simp⟩ fun hf hn hn' => ?_
    exact hf.advance (by simp [State.go, holds]) Iff.rfl rfl rfl (by rw [hn, hn']) rfl rfl rfl
      (by simp [unqueued]) (by simp [failure]) (by simp) (by simp [owns]) rfl
  case wake all found done =>
    have hm := hu.mutex.mpr rfl
    rw [h.represents.first] at hs
    cases hq : s.queue with
    | nil =>
      simp only [hq, List.head?_nil] at hs hwaking
      cases hs
      refine h.inside (q := .wakeLeave all found done) hp (by simp [State.go]) (Or.inr hm)
        (Or.inr hm) rfl rfl rfl rfl rfl rfl (fun t ht => by simp [State.go, ht]) (fun _ _ => rfl)
        rfl rfl (fun _ _ _ h => h) ?_ fun hf hn hn' => ?_
      · obtain ⟨hfound, hdone⟩ := hwaking
        cases all with
        | true => exact ⟨hq ▸ hfound, hq⟩
        | false =>
          obtain rfl := hdone rfl
          exact ⟨hq ▸ hfound, by simpa using hfound⟩
      · exact hf.advance (by simp [State.go, hm, holds]) Iff.rfl rfl rfl (by rw [hn, hn']) rfl rfl
          rfl (by simp [unqueued]) (by simp [failure]) (by simp) (by simp [owns]) rfl
    | cons w queue =>
      simp only [hq, List.head?_cons] at hs
      cases hs
      exact good_remove h hp hq
  case post all found done w =>
    obtain ⟨n, hsem, rfl⟩ := Option.map_eq_some_iff.mp hs
    exact good_post h hp hsem rfl
  case wakeLeave all found done =>
    cases hs
    have hm := hu.mutex.mpr rfl
    refine h.inside (q := .user) hp (by simp [State.go]) (Or.inr hm) (Or.inl rfl) rfl rfl rfl rfl
      rfl rfl (fun t ht => by simp [State.go, ht]) (fun _ _ => rfl) rfl rfl (fun _ _ _ h => h)
      trivial fun hf hn hn' => ?_
    exact hf.advance (by simp [State.go, holds]) Iff.rfl rfl rfl (by rw [hn, hn']) rfl rfl rfl
      (by simp [unqueued]) (by simp [failure]) (by simp) (by simp [owns]) rfl
  all_goals cases hs

theorem good_step (h : Good s) {i : Action} (hs : step owners s i = some s') : Good s' := by
  cases i with
  | callWait t m timed => exact good_callWait h hs
  | wait t => exact good_wait h hs
  | createFails t => exact good_createFails h hs
  | sleepFails t aborted => exact good_sleepFails h hs
  | relockFails t code => exact good_relockFails h hs
  | callWake t all => exact good_callWake h hs
  | wake t => exact good_wake h hs
  | userLock t m =>
    simp only [step, userLock] at hs
    split at hs
    · rename_i hp
      obtain ⟨x, hlock, rfl⟩ := Option.map_eq_some_iff.mp hs
      exact good_setMutex h hp (Or.inl (owners_lock hlock).1)
    · cases hs
  | userUnlock t m =>
    simp only [step, userUnlock] at hs
    split at hs
    · rename_i hguard
      simp only [Bool.and_eq_true, decide_eq_true_eq] at hguard
      cases hs
      exact good_setMutex h hguard.1 (Or.inr hguard.2)
    · cases hs

theorem good_initial : Good (initial owners) where
  fits := fun t => by
    constructor <;> simp [initial, holds, waits, inWait, posted, unqueued, outcome, failure, owns,
      backsOut]
  represents := represents_empty
  sorted := List.Pairwise.nil
  arrived := by simp [initial]
  waking := fun _ => trivial

end

/-- The property of a state. The list is well formed, holds the linked waiters in the order of
their arrival, and each has its semaphore; a signal has removed the oldest waiter it found and a
broadcast all of them; a wait that is over returned 0 if its waiter was removed and the mutex was
locked again, and only then; a waiter that was removed has its token or is about to get it; and a
waiter whose thread has released the mutex is in the list until it is removed or gives up. -/
structure Delivered (s : Owned) : Prop where
  list : Represents s.links s.queue
  order : s.queue.Pairwise fun a b => s.arrival a < s.arrival b
  semaphores : ∀ t ∈ s.queue, (s.semaphore t).isSome = true
  signal : ∀ t found done, s.place t = .wakeLeave false found done →
    done = found.take 1 ∧ s.queue = found.drop 1
  broadcast : ∀ t found done, s.place t = .wakeLeave true found done → done = found ∧ s.queue = []
  returned : ∀ t code relocked, s.place t = .returned code relocked →
    (code = 0 ↔ s.removed t = true ∧ relocked = true)
  token : ∀ t, waits (s.place t) = true → s.removed t = true →
    s.semaphore t = some 1 ∨ s.semaphore t = some 0 ∧ posted s = some t
  queued : ∀ t, waits (s.place t) = true → s.removed t = false → t ∈ s.queue

theorem Good.delivered {s : Owned} (h : Good s) : Delivered s where
  list := h.represents
  order := h.sorted
  semaphores := fun t ht => by
    rw [(h.fits t).semaphore]
    exact (inWait_of_waits ((h.fits t).queued.mp ht).1).1
  signal := fun t found done hp => by
    have hw := h.waking t
    rw [hp] at hw
    obtain ⟨hfound, hdone⟩ := hw
    simp only [Bool.false_eq_true, if_false] at hdone
    refine ⟨hdone, @List.append_cancel_left _ (found.take 1) _ _ ?_⟩
    rw [List.take_append_drop, ← hdone]
    exact hfound.symm
  broadcast := fun t found done hp => by
    have hw := h.waking t
    rw [hp] at hw
    obtain ⟨hfound, hqueue⟩ := hw
    simp only [if_true] at hqueue
    exact ⟨by simpa [hqueue] using hfound.symm, hqueue⟩
  returned := fun t => (h.fits t).returned
  token := fun t hp hr => by
    obtain ⟨hin, hout, _, _⟩ := inWait_of_waits hp
    have hsem := (h.fits t).semaphore
    have htoken := (h.fits t).token hin
    rw [hin] at hsem
    obtain ⟨n, hn⟩ := Option.isSome_iff_exists.mp hsem
    simp only [hn, Option.getD_some, hout, reduceCtorEq, if_false, hr, Bool.toNat_true] at htoken
    by_cases hposted : posted s = some t
    · simp only [if_pos hposted] at htoken
      obtain rfl : n = 0 := by omega
      exact Or.inr ⟨hn, hposted⟩
    · simp only [if_neg hposted] at htoken
      obtain rfl : n = 1 := by omega
      exact Or.inl hn
  queued := fun t hp hr => (h.fits t).queued.mpr ⟨hp, hr⟩

section
variable {μ σ : Type} {k : MutexKind ThreadId μ} {c : SemaphoreKind ThreadId σ} {s : State μ σ}

theorem Good.locked (h : Good (seen k c s)) : Locked k s := fun t => (h.fits t).mutex

/-- With any mutexes and semaphores that obey ThreadX's laws. -/
theorem wakeups_delivered
    (h : Runs.Reached (step (objects k c)) (fun _ _ => True) (initial (objects k c)) s) :
    Delivered (seen k c s) := by
  have hgood : Plain k c s ∧ Good (seen k c s) := by
    refine h.invariant (P := fun s => Plain k c s ∧ Good (seen k c s))
      ⟨plain_initial, seen_initial ▸ good_initial⟩ fun s s' i ⟨hplain, hgood⟩ _ hs => ?_
    obtain ⟨hseen, hplain'⟩ := seen_step hplain hgood.locked hs
    exact ⟨hplain', good_step hgood hseen⟩
  exact hgood.2.delivered

end

/-- Thread 0 waits with a deadline; thread 1 signals it when the deadline has passed. -/
def lateSignal : List Action :=
  [.userLock 0 0, .callWait 0 0 true, .wait 0, .wait 0, .wait 0, .wait 0, .wait 0, .callWake 1 false,
    .wake 1, .wake 1, .sleepFails 0 false, .wake 1, .wake 1, .wait 0, .wait 0, .wait 0, .wait 0,
    .wait 0]

theorem wakeups_delivered_late :
    ∃ s, Runs.Reached (step threadx) (fun _ _ => True) (initial threadx) s ∧
      s.place 0 = .returned 0 true ∧ Delivered (seen (mutexes ThreadId) (semaphores ThreadId) s) := by
  have hsome : (Runs.perform (step threadx) (initial threadx) lateSignal).isSome = true := by
    decide +kernel
  obtain ⟨s, hs⟩ := Option.isSome_iff_exists.mp hsome
  have hreached := Runs.reached_of_perform hs (Runs.performs_always (fun _ _ => trivial) _)
  have hplace : (Runs.perform (step threadx) (initial threadx) lateSignal).map (fun s => s.place 0) =
      some (.returned 0 true) := by decide +kernel
  rw [hs, Option.map_some, Option.some.injEq] at hplace
  exact ⟨s, hreached, hplace, wakeups_delivered hreached⟩

end SimPLCity.Wakeups
