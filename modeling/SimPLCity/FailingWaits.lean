import SimPLCity.Wakeups

/-! Waits on a condition variable with a mutex that the caller does not own. The mutex cannot be
released, so the wait takes its waiter out of the list again and fails. To the others it is like a
wait with a mutex of its own that is aborted at once. -/

namespace SimPLCity.FailingWaits
open IntrusiveList ConditionVariables ConditionObjects ThreadXObjects

/-- `improper` is whether the last wait of a thread was with a mutex that it did not own. -/
structure Waits (μ σ : Type) where
  state : State μ σ
  improper : ThreadId → Bool := fun _ => false

inductive Action
  | run (i : ConditionVariables.Action)
  | callImproper (t : ThreadId) (m : MutexId) (timed : Bool)
deriving DecidableEq, Repr

section
variable {μ σ : Type} (o : Objects μ σ)

def start : Waits μ σ := { state := initial o }

/-- `condition_wait` and `condition_timed_wait` with a mutex that the caller does not own. -/
def callImproper (s : State μ σ) (t : ThreadId) (m : MutexId) (timed : Bool) : Option (State μ σ) :=
  if (s.place t).isUser && o.mutexOwner (s.userMutex m) ≠ some t then
    some
      { s.go t .create with
        argument := Function.update s.argument t m
        timed := Function.update s.timed t timed
        removed := Function.update s.removed t false }
  else none

def step (s : Waits μ σ) : Action → Option (Waits μ σ)
  | .run i => (ConditionVariables.step o s.state i).map fun next =>
    { state := next
      improper :=
        match i with
        | .callWait t _ _ | .callWake t _ => Function.update s.improper t false
        | _ => s.improper }
  | .callImproper t m timed => (callImproper o s.state t m timed).map fun next =>
    { state := next, improper := Function.update s.improper t true }

end

abbrev OwnedWaits := Waits (Option ThreadId) Nat

/-- The list is well formed and its waiters are there to be woken, whether their waits are proper or
not. A proper wait returns 0 if and only if it was woken and has its mutex again; an improper one
fails and leaves nothing behind. -/
structure Intact (s : OwnedWaits) : Prop where
  list : Represents s.state.links s.state.queue
  order : s.state.queue.Pairwise fun a b => s.state.arrival a < s.state.arrival b
  semaphores : ∀ t ∈ s.state.queue, (s.state.semaphore t).isSome = true
  posts : ∀ t all found done w, s.state.place t = .post all found done w →
    (s.state.semaphore w).isSome = true
  signal : ∀ t found done, s.state.place t = .wakeLeave false found done →
    done = found.take 1 ∧ s.state.queue = found.drop 1
  broadcast : ∀ t found done, s.state.place t = .wakeLeave true found done →
    done = found ∧ s.state.queue = []
  proper : ∀ t code relocked, s.improper t = false → s.state.place t = .returned code relocked →
    (code = 0 ↔ s.state.removed t = true ∧ relocked = true)
  improper : ∀ t code relocked, s.improper t = true → s.state.place t = .returned code relocked →
    code ≠ 0 ∧ t ∉ s.state.queue ∧ s.state.links.linked t = false ∧ s.state.semaphore t = none
  token : ∀ t, Wakeups.waits (s.state.place t) = true → s.state.removed t = true →
    s.state.semaphore t = some 1 ∨ s.state.semaphore t = some 0 ∧ Wakeups.posted s.state = some t
  queued : ∀ t, Wakeups.waits (s.state.place t) = true → s.state.removed t = false → t ∈ s.state.queue

/-- The places of an improper wait and of the wait with a mutex of its own. -/
def Twin : Place → Place → Prop
  | .user, q => q = .user
  | .returned code _, q => code ≠ 0 ∧ ∃ code' relocked, q = .returned code' relocked
  | .create, q => q = .create
  | .enter, q => q = .enter
  | .append, q => q = .append
  | .unlock, q => q = .unlock
  | .leave unlocked, q => unlocked = false ∧ q = .leave true
  | .recheck status unlocked, q => (status ≠ 0 ∧ unlocked = false) ∧ q = .recheck einval true
  | .settle status unlocked, q => (status ≠ 0 ∧ unlocked = false) ∧ q = .settle einval true
  | .resume status unlocked, q => (status ≠ 0 ∧ unlocked = false) ∧ ∃ status', q = .resume status' true
  | .destroy status unlocked, q => (status ≠ 0 ∧ unlocked = false) ∧ ∃ status', q = .destroy status' true
  | _, _ => False

/-- The semaphore is not looked at any more. -/
def late : Place → Bool
  | .resume _ _ | .destroy _ _ => true
  | _ => false

/-- The thread is in a wait. -/
def calls : Place → Bool
  | .user | .returned _ _ | .wakeEnter _ | .wake _ _ _ | .post _ _ _ _ | .wakeLeave _ _ _ => false
  | _ => true

/-- The mutex of its own that the wait of `t` has. -/
def ownMutex (t : ThreadId) : MutexId := 2 * t + 1

structure Alike (s : OwnedWaits) (a : Owned) (t : ThreadId) : Prop where
  place : if s.improper t then Twin (s.state.place t) (a.place t) else a.place t = s.state.place t
  semaphore : a.semaphore t = s.state.semaphore t ∨
    s.improper t = true ∧ late (s.state.place t) = true
  argument : calls (s.state.place t) = true →
    a.argument t = if s.improper t then ownMutex t else 2 * s.state.argument t
  owned : a.userMutex (ownMutex t) =
    if s.improper t && Wakeups.owns (s.state.place t) then some t else none
  foreign : s.improper t = true → Wakeups.owns (s.state.place t) = true →
    s.state.userMutex (s.state.argument t) ≠ some t

/-- `a` is the state with proper waits only. -/
structure Follows (s : OwnedWaits) (a : Owned) : Prop where
  links : a.links = s.state.links
  mutex : a.mutex = s.state.mutex
  queue : a.queue = s.state.queue
  arrival : a.arrival = s.state.arrival
  arrivals : a.arrivals = s.state.arrivals
  removed : a.removed = s.state.removed
  timed : a.timed = s.state.timed
  owner : ∀ m, a.userMutex (2 * m) = s.state.userMutex m
  alike : ∀ t, Alike s a t

theorem follows_start : Follows (start owners) (initial owners) :=
  ⟨rfl, rfl, rfl, rfl, rfl, rfl, rfl, fun _ => rfl, fun _ => ⟨rfl, Or.inl rfl, nofun, rfl, nofun⟩⟩

section
variable {s s' : OwnedWaits} {a a' : Owned} {t u w : ThreadId} {p q : Place}

theorem ownMutex_ne (t : ThreadId) (m : MutexId) : ownMutex t ≠ 2 * m := by
  intro heq
  have heq : (2 * t + 1 : Nat) = 2 * m := heq
  omega

theorem ownMutex_ne_of_ne (h : t ≠ u) : ownMutex t ≠ ownMutex u := by
  intro heq
  exact h (Nat.eq_of_mul_eq_mul_left Nat.two_pos (Nat.succ.inj heq))

theorem Alike.keep (h : Alike s a u) (himproper : s'.improper u = s.improper u)
    (hplace : s'.state.place u = s.state.place u) (hplace' : a'.place u = a.place u)
    (hsemaphore : s'.state.semaphore u = s.state.semaphore u)
    (hsemaphore' : a'.semaphore u = a.semaphore u)
    (hargument : s'.state.argument u = s.state.argument u) (hargument' : a'.argument u = a.argument u)
    (howned : a'.userMutex (ownMutex u) = a.userMutex (ownMutex u))
    (hforeign : ∀ m, s'.state.userMutex m = some u → s.state.userMutex m = some u) : Alike s' a' u where
  place := by
    rw [himproper, hplace, hplace']
    exact h.place
  semaphore := by
    rw [himproper, hplace, hsemaphore, hsemaphore']
    exact h.semaphore
  argument := by
    rw [himproper, hplace, hargument, hargument']
    exact h.argument
  owned := by
    rw [himproper, hplace, howned]
    exact h.owned
  foreign := by
    rw [himproper, hplace, hargument]
    exact fun hi ho hown => h.foreign hi ho (hforeign _ hown)

theorem Alike.same (h : Alike s a t) (hi : s.improper t = false) :
    a.place t = s.state.place t ∧ a.semaphore t = s.state.semaphore t ∧
      (calls (s.state.place t) = true → a.argument t = 2 * s.state.argument t) := by
  have hplace := h.place
  have hargument := h.argument
  rw [hi] at hplace hargument
  exact ⟨hplace, h.semaphore.resolve_right (by simp [hi]), hargument⟩

theorem Alike.twin (h : Alike s a t) (hi : s.improper t = true) :
    Twin (s.state.place t) (a.place t) ∧
      (calls (s.state.place t) = true → a.argument t = ownMutex t) := by
  have hplace := h.place
  have hargument := h.argument
  rw [hi] at hplace hargument
  exact ⟨hplace, hargument⟩

theorem twin_agrees (h : Twin p q) :
    q.isUser = p.isUser ∧ Wakeups.waits q = Wakeups.waits p ∧ Wakeups.target q = Wakeups.target p := by
  cases p <;> simp only [Twin] at h
  case returned =>
    obtain ⟨-, _, _, rfl⟩ := h
    exact ⟨rfl, rfl, rfl⟩
  case resume =>
    obtain ⟨-, _, rfl⟩ := h
    exact ⟨rfl, rfl, rfl⟩
  case destroy =>
    obtain ⟨-, _, rfl⟩ := h
    exact ⟨rfl, rfl, rfl⟩
  all_goals simp [h, Place.isUser, Wakeups.waits, Wakeups.target]

theorem twin_holds (h : Twin p q) : holds q = holds p := by
  cases p <;> simp only [Twin] at h
  case returned =>
    obtain ⟨-, _, _, rfl⟩ := h
    rfl
  case resume =>
    obtain ⟨-, _, rfl⟩ := h
    rfl
  case destroy =>
    obtain ⟨-, _, rfl⟩ := h
    rfl
  all_goals simp [h, holds]

theorem Alike.agrees (h : Alike s a t) : (a.place t).isUser = (s.state.place t).isUser ∧
    Wakeups.waits (a.place t) = Wakeups.waits (s.state.place t) ∧
    Wakeups.target (a.place t) = Wakeups.target (s.state.place t) := by
  cases hi : s.improper t with
  | false =>
    rw [(h.same hi).1]
    exact ⟨rfl, rfl, rfl⟩
  | true => exact twin_agrees (h.twin hi).1

theorem Alike.isUser (h : Alike s a t) : (a.place t).isUser = (s.state.place t).isUser := h.agrees.1

theorem Alike.waits (h : Alike s a t) : Wakeups.waits (a.place t) = Wakeups.waits (s.state.place t) :=
  h.agrees.2.1

theorem Follows.after (h : Follows s a) (t : ThreadId) (hlinks : a'.links = s'.state.links)
    (hmutex : a'.mutex = s'.state.mutex) (hqueue : a'.queue = s'.state.queue)
    (harrival : a'.arrival = s'.state.arrival) (harrivals : a'.arrivals = s'.state.arrivals)
    (hremoved : a'.removed = s'.state.removed) (htimed : a'.timed = s'.state.timed)
    (howner : ∀ m, a'.userMutex (2 * m) = s'.state.userMutex m)
    (himproper : ∀ u, u ≠ t → s'.improper u = s.improper u)
    (hplace : ∀ u, u ≠ t → s'.state.place u = s.state.place u ∧ a'.place u = a.place u)
    (hsemaphore : ∀ u, u ≠ t → s'.state.semaphore u = s.state.semaphore u ∧ a'.semaphore u = a.semaphore u)
    (hargument : ∀ u, u ≠ t → s'.state.argument u = s.state.argument u ∧ a'.argument u = a.argument u)
    (howned : ∀ u, u ≠ t → a'.userMutex (ownMutex u) = a.userMutex (ownMutex u))
    (hforeign : ∀ u, u ≠ t → ∀ m, s'.state.userMutex m = some u → s.state.userMutex m = some u)
    (halike : Alike s' a' t) : Follows s' a' := by
  refine ⟨hlinks, hmutex, hqueue, harrival, harrivals, hremoved, htimed, howner, fun u => ?_⟩
  by_cases hu : u = t
  · rw [hu]
    exact halike
  · exact (h.alike u).keep (himproper u hu) (hplace u hu).1 (hplace u hu).2 (hsemaphore u hu).1
      (hsemaphore u hu).2 (hargument u hu).1 (hargument u hu).2 (howned u hu) (hforeign u hu)

theorem two_mul_ne {m k : MutexId} (h : m ≠ k) : 2 * m ≠ 2 * k :=
  fun heq => h (Nat.eq_of_mul_eq_mul_left Nat.two_pos heq)

theorem owner_update (h : Follows s a) (m : MutexId) (o : Option ThreadId) (k : MutexId) :
    Function.update a.userMutex (2 * m) o (2 * k) = Function.update s.state.userMutex m o k := by
  by_cases hk : k = m
  · subst hk
    rw [Function.update_self, Function.update_self]
  · rw [Function.update_of_ne hk, Function.update_of_ne (two_mul_ne hk)]
    exact h.owner k

theorem owned_update (m : MutexId) (o : Option ThreadId) (f : MutexId → Option ThreadId) (u : ThreadId) :
    Function.update f (2 * m) o (ownMutex u) = f (ownMutex u) :=
  Function.update_of_ne (ownMutex_ne u m) ..

theorem foreign_update (ht : u ≠ t) {o : Option ThreadId} (ho : o = none ∨ o = some t) (m : MutexId)
    {f : MutexId → Option ThreadId} (k : MutexId) (h : Function.update f m o k = some u) : f k = some u := by
  by_cases hk : k = m
  · subst hk
    rw [Function.update_self] at h
    rcases ho with rfl | rfl
    · cases h
    · exact absurd (Option.some.inj h).symm ht
  · rwa [Function.update_of_ne hk] at h

theorem Alike.semaphore_eq (h : Alike s a t) (hp : late (s.state.place t) = false) :
    a.semaphore t = s.state.semaphore t :=
  h.semaphore.resolve_right fun hl => by simp [hp] at hl

theorem user_not_owns (hp : p.isUser = true) : Wakeups.owns p = false ∧ late p = false := by
  cases p <;> simp_all [Place.isUser, Wakeups.owns, late]

theorem follows_callWait (h : Follows s a) {m : MutexId} {timed : Bool}
    (hs : step owners s (.run (.callWait t m timed)) = some s') :
    ∃ a', ConditionVariables.step owners a (.callWait t (2 * m) timed) = some a' ∧ Follows s' a' := by
  obtain ⟨next, hnext, rfl⟩ := Option.map_eq_some_iff.mp hs
  simp only [ConditionVariables.step, callWait] at hnext ⊢
  split at hnext
  · rename_i hguard
    cases hnext
    have hown := (h.alike t).owned
    simp only [Bool.and_eq_true, decide_eq_true_eq] at hguard
    simp only [(h.alike t).isUser, h.owner, hguard.1, hguard.2, decide_true, Bool.and_self, if_true]
    refine ⟨_, rfl, ?_⟩
    refine h.after t h.links h.mutex h.queue h.arrival h.arrivals ?_ ?_ h.owner ?_ ?_ (fun _ _ => ⟨rfl, rfl⟩)
      ?_ (fun _ _ => rfl) (fun _ _ _ hk => hk) ?_
    · simp [h.removed]
    · simp [h.timed]
    · exact fun u hu => Function.update_of_ne hu ..
    · exact fun u hu => ⟨Function.update_of_ne hu .., Function.update_of_ne hu ..⟩
    · exact fun u hu => ⟨Function.update_of_ne hu .., Function.update_of_ne hu ..⟩
    · obtain ⟨hnot, hlate⟩ := user_not_owns hguard.1
      refine ⟨by simp [State.go], Or.inl ((h.alike t).semaphore_eq hlate), by simp, ?_, by simp⟩
      simpa [State.go, hnot] using hown
  · cases hnext

theorem follows_callWake (h : Follows s a) {all : Bool}
    (hs : step owners s (.run (.callWake t all)) = some s') :
    ∃ a', ConditionVariables.step owners a (.callWake t all) = some a' ∧ Follows s' a' := by
  obtain ⟨next, hnext, rfl⟩ := Option.map_eq_some_iff.mp hs
  simp only [ConditionVariables.step, callWake] at hnext ⊢
  split at hnext
  · rename_i huser
    cases hnext
    have hown := (h.alike t).owned
    obtain ⟨hnot, hlate⟩ := user_not_owns huser
    simp only [(h.alike t).isUser, huser, if_true]
    refine ⟨_, rfl, ?_⟩
    refine h.after t h.links h.mutex h.queue h.arrival h.arrivals h.removed h.timed h.owner ?_ ?_
      (fun _ _ => ⟨rfl, rfl⟩) (fun _ _ => ⟨rfl, rfl⟩) (fun _ _ => rfl) (fun _ _ _ hk => hk) ?_
    · exact fun u hu => Function.update_of_ne hu ..
    · exact fun u hu => ⟨Function.update_of_ne hu .., Function.update_of_ne hu ..⟩
    · refine ⟨by simp [State.go], Or.inl ((h.alike t).semaphore_eq hlate), by simp [State.go, calls], ?_,
        by simp⟩
      simpa [State.go, hnot] using hown
  · cases hnext

theorem alike_proper (hi : s.improper t = false) (hplace : a.place t = s.state.place t)
    (hsemaphore : a.semaphore t = s.state.semaphore t)
    (hargument : calls (s.state.place t) = true → a.argument t = 2 * s.state.argument t)
    (howned : a.userMutex (ownMutex t) = none) : Alike s a t :=
  ⟨by rwa [hi], Or.inl hsemaphore, by rwa [hi], by rw [hi]; exact howned, by rw [hi]; exact nofun⟩

/-- What a step of `t` leaves to the other threads. -/
structure Moved (x x' : Owned) (t : ThreadId) : Prop where
  place : ∀ u, u ≠ t → x'.place u = x.place u
  semaphore : ∀ u, u ≠ t → x'.semaphore u = x.semaphore u
  argument : x'.argument = x.argument
  owner : ∀ u, u ≠ t → ∀ m, x'.userMutex m = some u → x.userMutex m = some u

theorem moved_go {x x' : Owned} (hplace : x'.place = x.place) (hsemaphore : x'.semaphore = x.semaphore)
    (hargument : x'.argument = x.argument) (howner : x'.userMutex = x.userMutex) : Moved x (x'.go t p) t where
  place := fun u hu => (Function.update_of_ne hu ..).trans (congrFun hplace u)
  semaphore := fun u _ => congrFun hsemaphore u
  argument := hargument
  owner := fun _ _ _ hm => howner ▸ hm

theorem moved_semaphore {x x' : Owned} {n : Option Nat} (hplace : x'.place = x.place)
    (hsemaphore : x'.semaphore = Function.update x.semaphore t n) (hargument : x'.argument = x.argument)
    (howner : x'.userMutex = x.userMutex) : Moved x (x'.go t p) t where
  place := fun u hu => (Function.update_of_ne hu ..).trans (congrFun hplace u)
  semaphore := fun u hu => (congrFun hsemaphore u).trans (Function.update_of_ne hu ..)
  argument := hargument
  owner := fun _ _ _ hm => howner ▸ hm

theorem moved_userMutex {x : Owned} {m : MutexId} {o : Option ThreadId} (ho : o = none ∨ o = some t) :
    Moved x ((x.setMutex m o).go t p) t where
  place := fun _ hu => Function.update_of_ne hu ..
  semaphore := fun _ _ => rfl
  argument := rfl
  owner := fun _ hu k hk => foreign_update hu ho m k hk

theorem moved_wait {x x' : Owned} (hs : conditionWaitCommon owners x t = some x') : Moved x x' t := by
  unfold conditionWaitCommon at hs
  split at hs
  · cases hs
    exact moved_semaphore rfl rfl rfl rfl
  · obtain ⟨_, -, rfl⟩ := Option.map_eq_some_iff.mp hs
    exact moved_go rfl rfl rfl rfl
  · cases hs
    exact moved_go rfl rfl rfl rfl
  · split at hs <;> cases hs
    · exact moved_userMutex (Or.inl rfl)
    · exact moved_go rfl rfl rfl rfl
  · cases hs
    exact moved_go rfl rfl rfl rfl
  · obtain ⟨_, -, rfl⟩ := Option.map_eq_some_iff.mp hs
    exact moved_semaphore rfl rfl rfl rfl
  · obtain ⟨_, -, rfl⟩ := Option.map_eq_some_iff.mp hs
    exact moved_go rfl rfl rfl rfl
  · split at hs
    · cases hs
      exact moved_go rfl rfl rfl rfl
    · split at hs <;> cases hs
      · exact moved_semaphore rfl rfl rfl rfl
      · exact moved_go rfl rfl rfl rfl
  · cases hs
    exact moved_go rfl rfl rfl rfl
  · cases hs
    exact moved_semaphore rfl rfl rfl rfl
  · obtain ⟨_, hlock, rfl⟩ := Option.map_eq_some_iff.mp hs
    exact moved_userMutex (Or.inr (owners_lock hlock).2)
  · cases hs

theorem calls_wait {x x' : Owned} (hs : conditionWaitCommon owners x t = some x') :
    calls (x.place t) = true := by
  unfold conditionWaitCommon at hs
  cases hp : x.place t <;> simp_all [calls]

/-- What is not of one thread or of a user's mutex. -/
def Shared (x y : Owned) : Prop :=
  y.links = x.links ∧ y.mutex = x.mutex ∧ y.queue = x.queue ∧ y.arrival = x.arrival ∧
    y.arrivals = x.arrivals ∧ y.removed = x.removed ∧ y.timed = x.timed

theorem Follows.shared (h : Follows s a) : Shared s.state a :=
  ⟨h.links, h.mutex, h.queue, h.arrival, h.arrivals, h.removed, h.timed⟩

theorem Follows.step (h : Follows s a) {next : Owned} (hshared : Shared next a')
    (howner : ∀ m, a'.userMutex (2 * m) = next.userMutex m)
    (howned : ∀ u, u ≠ t → a'.userMutex (ownMutex u) = a.userMutex (ownMutex u))
    (hmoved : Moved s.state next t) (hmoved' : Moved a a' t) (halike : Alike { s with state := next } a' t) :
    Follows { s with state := next } a' := by
  obtain ⟨hlinks, hmutex, hqueue, harrival, harrivals, hremoved, htimed⟩ := hshared
  exact h.after t hlinks hmutex hqueue harrival harrivals hremoved htimed howner (fun _ _ => rfl)
    (fun u hu => ⟨hmoved.place u hu, hmoved'.place u hu⟩)
    (fun u hu => ⟨hmoved.semaphore u hu, hmoved'.semaphore u hu⟩)
    (fun u _ => ⟨congrFun hmoved.argument u, congrFun hmoved'.argument u⟩) howned hmoved.owner halike

theorem follows_wait (h : Follows s a) (hi : s.improper t = false) {next : Owned}
    (hs : conditionWaitCommon owners s.state t = some next) :
    ∃ a', conditionWaitCommon owners a t = some a' ∧ Follows { s with state := next } a' := by
  obtain ⟨hplace, hsemaphore, hargument⟩ := (h.alike t).same hi
  have howned := (h.alike t).owned
  rw [hi, Bool.false_and, if_neg Bool.false_ne_true] at howned
  obtain ⟨hlinks, hmutex, hqueue, harrival, harrivals, hremoved, htimed⟩ := h.shared
  have hmoved := moved_wait hs
  -- the same step is possible, and its result is the same but for the numbers of the mutexes
  suffices hsame : ∃ a', conditionWaitCommon owners a t = some a' ∧ Shared next a' ∧
      (∀ m, a'.userMutex (2 * m) = next.userMutex m) ∧
      (∀ u, a'.userMutex (ownMutex u) = a.userMutex (ownMutex u)) ∧
      a'.place t = next.place t ∧ a'.semaphore t = next.semaphore t by
    obtain ⟨a', hs', hshared, howner, hown, hplace', hsemaphore'⟩ := hsame
    have hmoved' := moved_wait hs'
    refine ⟨a', hs', h.step hshared howner (fun u _ => hown u) hmoved hmoved'
      (alike_proper hi hplace' hsemaphore' (fun hcalls => ?_) ((hown t).trans howned))⟩
    rw [hmoved.argument, hmoved'.argument]
    exact hargument (calls_wait hs)
  unfold conditionWaitCommon at hs ⊢
  rw [hplace]
  cases hp : s.state.place t <;> simp only [hp] at hs ⊢ <;> try cases hs
  case create =>
    refine ⟨_, rfl, ⟨?_, hmutex, hqueue, harrival, harrivals, hremoved, htimed⟩, h.owner, fun _ => rfl,
      ?_, ?_⟩
    · simp [State.go, State.setSemaphore, hlinks]
    · simp [State.go]
    · simp [State.go, State.setSemaphore]
  case enter =>
    obtain ⟨_, hget, rfl⟩ := Option.map_eq_some_iff.mp hs
    rw [hmutex, hget]
    refine ⟨_, rfl, ⟨hlinks, rfl, hqueue, harrival, harrivals, hremoved, htimed⟩, h.owner, fun _ => rfl,
      ?_, hsemaphore⟩
    simp [State.go]
  case append =>
    refine ⟨_, rfl, ⟨?_, hmutex, ?_, ?_, ?_, hremoved, htimed⟩, h.owner, fun _ => rfl, ?_, hsemaphore⟩
    · simp [State.go, appendWaiter, hlinks]
    · simp [State.go, appendWaiter, hqueue]
    · simp [State.go, appendWaiter, harrival, harrivals]
    · simp [State.go, appendWaiter, harrivals]
    · simp [State.go]
  case unlock =>
    rw [hargument (by rw [hp]; rfl), h.owner]
    split at hs <;> cases hs
    · rename_i hown
      rw [if_pos hown]
      refine ⟨_, rfl, ⟨hlinks, hmutex, hqueue, harrival, harrivals, hremoved, htimed⟩, owner_update h _ _,
        owned_update _ _ _, ?_, hsemaphore⟩
      simp [State.go]
    · rename_i hown
      rw [if_neg hown]
      refine ⟨_, rfl, ⟨hlinks, hmutex, hqueue, harrival, harrivals, hremoved, htimed⟩, h.owner,
        fun _ => rfl, ?_, hsemaphore⟩
      simp [State.go]
  case leave unlocked =>
    refine ⟨_, rfl, ⟨hlinks, congrArg owners.mutexPut hmutex, hqueue, harrival, harrivals, hremoved,
      htimed⟩, h.owner, fun _ => rfl, ?_, hsemaphore⟩
    simp [State.go]
  case sleep =>
    obtain ⟨_, htoken, rfl⟩ := Option.map_eq_some_iff.mp hs
    rw [hsemaphore, htoken]
    refine ⟨_, rfl, ⟨hlinks, hmutex, hqueue, harrival, harrivals, hremoved, htimed⟩, h.owner, fun _ => rfl,
      ?_, ?_⟩
    · simp [State.go]
    · simp [State.go, State.setSemaphore]
  case recheck status unlocked =>
    obtain ⟨_, hget, rfl⟩ := Option.map_eq_some_iff.mp hs
    rw [hmutex, hget]
    refine ⟨_, rfl, ⟨hlinks, rfl, hqueue, harrival, harrivals, hremoved, htimed⟩, h.owner, fun _ => rfl,
      ?_, hsemaphore⟩
    simp [State.go]
  case settle status unlocked =>
    rw [hlinks, hsemaphore]
    split at hs
    · rename_i hlinked
      cases hs
      rw [if_pos hlinked]
      refine ⟨_, rfl, ⟨?_, hmutex, ?_, harrival, harrivals, hremoved, htimed⟩, h.owner, fun _ => rfl,
        ?_, hsemaphore⟩
      · simp [State.go, removeWaiter, hlinks]
      · simp [State.go, removeWaiter, hqueue]
      · simp [State.go]
    · rename_i hlinked
      rw [if_neg hlinked]
      split at hs <;> cases hs
      · refine ⟨_, rfl, ⟨hlinks, hmutex, hqueue, harrival, harrivals, hremoved, htimed⟩, h.owner,
          fun _ => rfl, ?_, ?_⟩
        · simp [State.go]
        · simp [State.go, State.setSemaphore]
      · refine ⟨_, rfl, ⟨hlinks, hmutex, hqueue, harrival, harrivals, hremoved, htimed⟩, h.owner,
          fun _ => rfl, ?_, hsemaphore⟩
        simp [State.go]
  case resume status unlocked =>
    refine ⟨_, rfl, ⟨hlinks, congrArg owners.mutexPut hmutex, hqueue, harrival, harrivals, hremoved,
      htimed⟩, h.owner, fun _ => rfl, ?_, hsemaphore⟩
    simp [State.go]
  case destroy status unlocked =>
    refine ⟨_, rfl, ⟨hlinks, hmutex, hqueue, harrival, harrivals, hremoved, htimed⟩, h.owner, fun _ => rfl,
      ?_, ?_⟩
    · simp [State.go]
    · simp [State.go, State.setSemaphore]
  case relock status =>
    obtain ⟨_, hlock, rfl⟩ := Option.map_eq_some_iff.mp hs
    rw [hargument (by rw [hp]; rfl), h.owner, hlock]
    refine ⟨_, rfl, ⟨hlinks, hmutex, hqueue, harrival, harrivals, hremoved, htimed⟩, owner_update h _ _,
      owned_update _ _ _, ?_, hsemaphore⟩
    simp [State.go]

theorem follows_go (h : Follows s a) (hi : s.improper t = false) (hp : calls p = false) :
    Follows { s with state := s.state.go t p } (a.go t p) := by
  obtain ⟨-, hsemaphore, -⟩ := (h.alike t).same hi
  have howned := (h.alike t).owned
  rw [hi, Bool.false_and, if_neg Bool.false_ne_true] at howned
  refine h.step (t := t) h.shared h.owner (fun _ _ => rfl) (moved_go rfl rfl rfl rfl)
    (moved_go rfl rfl rfl rfl) (alike_proper hi ?_ hsemaphore (fun hcalls => ?_) howned)
  · simp [State.go]
  · simp [State.go, hp] at hcalls

theorem follows_sleepFails (h : Follows s a) (hi : s.improper t = false) {aborted : Bool} {next : Owned}
    (hs : sleepFails s.state t aborted = some next) :
    ∃ a', sleepFails a t aborted = some a' ∧ Follows { s with state := next } a' := by
  obtain ⟨hplace, hsemaphore, hargument⟩ := (h.alike t).same hi
  have howned := (h.alike t).owned
  rw [hi, Bool.false_and, if_neg Bool.false_ne_true] at howned
  unfold sleepFails at hs ⊢
  rw [hplace, h.timed]
  split at hs <;> cases hs
  rename_i hguard
  rw [if_pos hguard]
  simp only [Bool.and_eq_true, decide_eq_true_eq] at hguard
  refine ⟨_, rfl, h.step (t := t) h.shared h.owner (fun _ _ => rfl) (moved_go rfl rfl rfl rfl)
    (moved_go rfl rfl rfl rfl) (alike_proper hi ?_ hsemaphore (fun _ => ?_) howned)⟩
  · simp [State.go]
  · exact hargument (by rw [hguard.1]; rfl)

theorem follows_relockFails (h : Follows s a) (hi : s.improper t = false) {code : Nat} {next : Owned}
    (hs : relockFails s.state t code = some next) :
    ∃ a', relockFails a t code = some a' ∧ Follows { s with state := next } a' := by
  obtain ⟨hplace, -, -⟩ := (h.alike t).same hi
  unfold relockFails at hs ⊢
  rw [hplace]
  split at hs
  · split at hs <;> cases hs
    rename_i hcode
    rw [if_pos hcode]
    exact ⟨_, rfl, follows_go h hi rfl⟩
  · cases hs

theorem follows_setMutex (h : Follows s a) {m : MutexId} {o : Option ThreadId}
    (hp : (s.state.place t).isUser = true) (ho : o = none ∨ o = some t) :
    Follows { s with state := s.state.setMutex m o } (a.setMutex (2 * m) o) := by
  have ht := h.alike t
  refine ⟨h.links, h.mutex, h.queue, h.arrival, h.arrivals, h.removed, h.timed, owner_update h _ _,
    fun u => ?_⟩
  by_cases hu : u = t
  · subst hu
    refine ⟨ht.place, ht.semaphore, ht.argument, ?_, fun _ howns => ?_⟩
    · exact (owned_update m o a.userMutex u).trans ht.owned
    · have hnot : Wakeups.owns (s.state.place u) = true := howns
      rw [(user_not_owns hp).1] at hnot
      cases hnot
  · exact (h.alike u).keep rfl rfl rfl rfl rfl rfl rfl (owned_update m o a.userMutex u)
      fun k hk => foreign_update hu ho m k hk

theorem Follows.waking (h : Follows s a) (hp : ∀ q, ¬ Twin (s.state.place t) q) : s.improper t = false := by
  by_contra hi
  exact hp _ ((h.alike t).twin (by simpa using hi)).1

theorem follows_wake (h : Follows s a) (hg : Wakeups.Good a) {next : Owned}
    (hs : conditionWake owners s.state t = some next) :
    ∃ a', conditionWake owners a t = some a' ∧ Follows { s with state := next } a' := by
  have hi : s.improper t = false := by
    refine h.waking fun q htwin => ?_
    unfold conditionWake at hs
    cases hp : s.state.place t <;> simp_all [Twin]
  obtain ⟨hplace, hsemaphore, -⟩ := (h.alike t).same hi
  have howned := (h.alike t).owned
  rw [hi, Bool.false_and, if_neg Bool.false_ne_true] at howned
  obtain ⟨hlinks, hmutex, hqueue, harrival, harrivals, hremoved, htimed⟩ := h.shared
  unfold conditionWake at hs ⊢
  rw [hplace]
  cases hp : s.state.place t <;> simp only [hp] at hs ⊢ <;> try cases hs
  case wakeEnter all =>
    obtain ⟨_, hget, rfl⟩ := Option.map_eq_some_iff.mp hs
    rw [hmutex, hget, hqueue]
    refine ⟨_, rfl, h.step (t := t) ⟨hlinks, rfl, rfl, harrival, harrivals, hremoved, htimed⟩ h.owner
      (fun _ _ => rfl) (moved_go rfl rfl rfl rfl) (moved_go rfl rfl rfl rfl)
      (alike_proper hi ?_ hsemaphore (fun hcalls => ?_) howned)⟩
    · simp [State.go]
    · simp [State.go, calls] at hcalls
  case wake all found done =>
    rw [hlinks]
    split at hs <;> cases hs
    · refine ⟨_, rfl, h.step (t := t) ⟨?_, hmutex, ?_, harrival, harrivals, ?_, htimed⟩ h.owner
        (fun _ _ => rfl) (moved_go rfl rfl rfl rfl) (moved_go rfl rfl rfl rfl)
        (alike_proper hi ?_ hsemaphore (fun hcalls => ?_) howned)⟩
      · simp [State.go, removeWaiter, hlinks]
      · simp [State.go, removeWaiter, hqueue]
      · simp [State.go, removeWaiter, hremoved]
      · simp [State.go]
      · simp [State.go, calls] at hcalls
    · exact ⟨_, rfl, follows_go h hi rfl⟩
  case post all found done w =>
    have hwaits := (hg.target_waits (hplace.trans hp)).2
    have hsame : a.semaphore w = s.state.semaphore w := by
      refine (h.alike w).semaphore.resolve_right fun hlate => ?_
      have htwin := ((h.alike w).twin hlate.1).1
      cases hq : s.state.place w <;> simp_all [late, Twin] <;>
        (obtain ⟨-, _, hw⟩ := htwin; rw [hw] at hwaits; cases hwaits)
    obtain ⟨n, hn, rfl⟩ := Option.map_eq_some_iff.mp hs
    rw [hsame, hn]
    refine ⟨_, rfl, hlinks, hmutex, hqueue, harrival, harrivals, hremoved, htimed, h.owner,
      fun u => ?_⟩
    have hsemaphore' : Function.update a.semaphore w (some (n + 1)) u =
        Function.update s.state.semaphore w (some (n + 1)) u ∨
        s.improper u = true ∧ late (s.state.place u) = true := by
      by_cases hu : u = w
      · subst hu
        exact Or.inl (by rw [Function.update_self, Function.update_self])
      · rw [Function.update_of_ne hu, Function.update_of_ne hu]
        exact (h.alike u).semaphore
    by_cases hu : u = t
    · subst hu
      refine alike_proper hi ?_ (hsemaphore'.resolve_right (by simp [hi])) (fun hcalls => ?_) howned
      · simp [State.go, State.setSemaphore]
      · cases all <;> simp [State.go, calls] at hcalls
    · have hkeep := h.alike u
      refine ⟨?_, ?_, ?_, ?_, ?_⟩
      · simpa [State.go, State.setSemaphore, hu] using hkeep.place
      · simpa [State.go, State.setSemaphore, hu] using hsemaphore'
      · simpa [State.go, State.setSemaphore, hu] using hkeep.argument
      · simpa [State.go, State.setSemaphore, hu] using hkeep.owned
      · simpa [State.go, State.setSemaphore, hu] using hkeep.foreign
  case wakeLeave all found done =>
    refine ⟨_, rfl, h.step (t := t)
      ⟨hlinks, congrArg owners.mutexPut hmutex, hqueue, harrival, harrivals, hremoved, htimed⟩ h.owner
      (fun _ _ => rfl) (moved_go rfl rfl rfl rfl) (moved_go rfl rfl rfl rfl)
      (alike_proper hi ?_ hsemaphore (fun hcalls => ?_) howned)⟩
    · simp [State.go]
    · simp [State.go, calls] at hcalls

abbrev Steps (a a' : Owned) : Prop := Runs.Reached (ConditionVariables.step owners) (fun _ _ => True) a a'

theorem Moved.trans {x y z : Owned} (h : Moved x y t) (h' : Moved y z t) : Moved x z t where
  place := fun u hu => (h'.place u hu).trans (h.place u hu)
  semaphore := fun u hu => (h'.semaphore u hu).trans (h.semaphore u hu)
  argument := h'.argument.trans h.argument
  owner := fun u hu m hm => h.owner u hu m (h'.owner u hu m hm)

theorem moved_setMutex {x : Owned} {m : MutexId} {o : Option ThreadId} (ho : o = none ∨ o = some t) :
    Moved x (x.setMutex m o) t where
  place := fun _ _ => rfl
  semaphore := fun _ _ => rfl
  argument := rfl
  owner := fun _ hu k hk => foreign_update hu ho m k hk

theorem Follows.improper (h : Follows s a) (hi : s.improper t = true) {next : Owned}
    (hmoved : Moved s.state next t) (hmoved' : Moved a a' t) (hshared : Shared next a')
    (howner : next.userMutex = s.state.userMutex)
    (hother : ∀ m, m ≠ ownMutex t → a'.userMutex m = a.userMutex m)
    (htwin : Twin (next.place t) (a'.place t))
    (hsemaphore : a'.semaphore t = next.semaphore t ∨ late (next.place t) = true)
    (hcalls : calls (next.place t) = true → calls (s.state.place t) = true)
    (howned : a'.userMutex (ownMutex t) = if Wakeups.owns (next.place t) then some t else none)
    (howns : Wakeups.owns (next.place t) = true → Wakeups.owns (s.state.place t) = true) :
    Follows { s with state := next } a' := by
  refine h.step (t := t) hshared (fun m => ?_) (fun u hu => hother _ (ownMutex_ne_of_ne hu)) hmoved hmoved'
    ⟨?_, ?_, fun hc => ?_, ?_, fun _ ho => ?_⟩
  · rw [howner, hother _ (ownMutex_ne t m).symm]
    exact h.owner m
  · simpa [hi] using htwin
  · exact hsemaphore.imp_right fun hl => ⟨hi, hl⟩
  · rw [hmoved'.argument, (h.alike t).argument (hcalls hc)]
    simp [hi]
  · simpa [hi] using howned
  · simp only [howner, hmoved.argument]
    exact (h.alike t).foreign hi (howns ho)

theorem steps_one {i : ConditionVariables.Action} (hs : ConditionVariables.step owners a i = some a') :
    Steps a a' :=
  Runs.Reached.start.next trivial hs

theorem steps_wait (hs : conditionWaitCommon owners a t = some a') : Steps a a' := steps_one (i := .wait t) hs

theorem remove_unlinked {q : Links ThreadId} (h : q.linked t = false) : q.remove t = q := by
  simp [Links.remove, h]

theorem settle_unlinked {status : Nat} (hq : a.place t = .settle status true)
    (hlinked : a.links.linked t = false) :
    ∃ a' status', conditionWaitCommon owners a t = some a' ∧ Shared a a' ∧ a'.place t = .resume status' true ∧
      a'.userMutex = a.userMutex := by
  unfold conditionWaitCommon
  simp only [hq, hlinked, Bool.not_true, Bool.or_self, if_neg Bool.false_ne_true]
  split
  · exact ⟨_, _, rfl, ⟨rfl, rfl, rfl, rfl, rfl, rfl, rfl⟩, Function.update_self .., rfl⟩
  · exact ⟨_, _, rfl, ⟨rfl, rfl, rfl, rfl, rfl, rfl, rfl⟩, Function.update_self .., rfl⟩

theorem Follows.backsOut (h : Follows s a) (hi : s.improper t = true) {next : Owned}
    (hs : conditionWaitCommon owners s.state t = some next) (hmoved : Moved a a' t) (hshared : Shared next a')
    (howner : next.userMutex = s.state.userMutex)
    (hother : ∀ m, m ≠ ownMutex t → a'.userMutex m = a.userMutex m)
    (htwin : Twin (next.place t) (a'.place t))
    (hsemaphore : a'.semaphore t = next.semaphore t ∨ late (next.place t) = true)
    (howned : a'.userMutex (ownMutex t) = if Wakeups.owns (next.place t) then some t else none)
    (howns : Wakeups.owns (next.place t) = true → Wakeups.owns (s.state.place t) = true) :
    Follows { s with state := next } a' :=
  h.improper hi (moved_wait hs) hmoved hshared howner hother htwin hsemaphore (fun _ => calls_wait hs)
    howned howns

section
variable {next : Owned} {status : Nat} {unlocked : Bool}

theorem backsOut_create (h : Follows s a) (hi : s.improper t = true)
    (hp : s.state.place t = .create) (hs : conditionWaitCommon owners s.state t = some next) :
    ∃ a', Steps a a' ∧ Follows { s with state := next } a' := by
  have hnext := hs
  have htwin := ((h.alike t).twin hi).1
  have howned := (h.alike t).owned
  obtain ⟨hlinks, hmutex, hqueue, harrival, harrivals, hremoved, htimed⟩ := h.shared
  simp only [conditionWaitCommon, hp, hi, Bool.true_and] at hnext htwin howned
  cases hnext
  have hnext' : conditionWaitCommon owners a t =
      some ({ a.setSemaphore t (some 0) with links := a.links.reset t }.go t .enter) := by
    simp [conditionWaitCommon, show a.place t = .create from htwin]
  refine ⟨_, steps_wait hnext', h.backsOut hi hs (moved_wait hnext')
    ⟨?_, hmutex, hqueue, harrival, harrivals, hremoved, htimed⟩ rfl
    (fun _ _ => rfl) ?_ ?_ ?_ (fun _ => by rw [hp]; rfl)⟩
  · simp [State.go, State.setSemaphore, hlinks]
  · simp [State.go, Twin]
  · simp [State.go, State.setSemaphore]
  · simpa [State.go, State.setSemaphore, Wakeups.owns] using howned

theorem backsOut_enter (h : Follows s a) (hi : s.improper t = true)
    (hp : s.state.place t = .enter) (hs : conditionWaitCommon owners s.state t = some next) :
    ∃ a', Steps a a' ∧ Follows { s with state := next } a' := by
  have hnext := hs
  have htwin := ((h.alike t).twin hi).1
  have howned := (h.alike t).owned
  have hsame := (h.alike t).semaphore
  obtain ⟨hlinks, hmutex, hqueue, harrival, harrivals, hremoved, htimed⟩ := h.shared
  simp only [conditionWaitCommon, hp, hi, Bool.true_and] at hnext htwin howned hsame
  obtain ⟨x, hget, rfl⟩ := Option.map_eq_some_iff.mp hnext
  have hnext' : conditionWaitCommon owners a t = some ({ a with mutex := x }.go t .append) := by
    simp [conditionWaitCommon, show a.place t = .enter from htwin, hmutex, hget]
  refine ⟨_, steps_wait hnext', h.backsOut hi hs (moved_wait hnext')
    ⟨hlinks, rfl, hqueue, harrival, harrivals, hremoved, htimed⟩ rfl
    (fun _ _ => rfl) ?_ ?_ ?_ (fun _ => by rw [hp]; rfl)⟩
  · simp [State.go, Twin]
  · simpa [State.go, late] using hsame
  · simpa [State.go, Wakeups.owns] using howned

theorem backsOut_append (h : Follows s a) (hi : s.improper t = true)
    (hp : s.state.place t = .append) (hs : conditionWaitCommon owners s.state t = some next) :
    ∃ a', Steps a a' ∧ Follows { s with state := next } a' := by
  have hnext := hs
  have htwin := ((h.alike t).twin hi).1
  have howned := (h.alike t).owned
  have hsame := (h.alike t).semaphore
  obtain ⟨hlinks, hmutex, hqueue, harrival, harrivals, hremoved, htimed⟩ := h.shared
  simp only [conditionWaitCommon, hp, hi, Bool.true_and] at hnext htwin howned hsame
  cases hnext
  have hnext' : conditionWaitCommon owners a t = some ((appendWaiter a t).go t .unlock) := by
    simp [conditionWaitCommon, show a.place t = .append from htwin]
  refine ⟨_, steps_wait hnext', h.backsOut hi hs (moved_wait hnext')
    ⟨?_, hmutex, ?_, ?_, ?_, hremoved, htimed⟩ rfl
    (fun _ _ => rfl) ?_ ?_ ?_ (fun _ => by rw [hp]; rfl)⟩
  · simp [State.go, appendWaiter, hlinks]
  · simp [State.go, appendWaiter, hqueue]
  · simp [State.go, appendWaiter, harrival, harrivals]
  · simp [State.go, appendWaiter, harrivals]
  · simp [State.go, Twin]
  · simpa [State.go, appendWaiter, late] using hsame
  · simpa [State.go, appendWaiter, Wakeups.owns] using howned

theorem backsOut_unlock (h : Follows s a) (hi : s.improper t = true)
    (hp : s.state.place t = .unlock) (hs : conditionWaitCommon owners s.state t = some next) :
    ∃ a', Steps a a' ∧ Follows { s with state := next } a' := by
  have hnext := hs
  have hargument := ((h.alike t).twin hi).2 (calls_wait hs)
  have htwin := ((h.alike t).twin hi).1
  have howned := (h.alike t).owned
  have hforeign := (h.alike t).foreign hi
  have hsame := (h.alike t).semaphore
  obtain ⟨hlinks, hmutex, hqueue, harrival, harrivals, hremoved, htimed⟩ := h.shared
  simp only [conditionWaitCommon, hp, hi, Bool.true_and] at hnext htwin howned hforeign hsame
  rw [if_neg (owners_owner.trans_ne (hforeign rfl))] at hnext
  cases hnext
  have hown : a.userMutex (ownMutex t) = some t := by simpa [Wakeups.owns] using howned
  have hnext' : conditionWaitCommon owners a t = some ((a.setMutex (ownMutex t) none).go t (.leave true)) := by
    simp [conditionWaitCommon, show a.place t = .unlock from htwin, hargument, hown, owners_owner]
  refine ⟨_, steps_wait hnext', h.backsOut hi hs (moved_wait hnext')
    ⟨hlinks, hmutex, hqueue, harrival, harrivals, hremoved, htimed⟩ rfl
    (fun m hm => Function.update_of_ne hm ..) ?_ ?_ ?_ ?_⟩
  · simp [State.go, Twin]
  · simpa [State.go, State.setMutex, late] using hsame
  · simp [State.go, State.setMutex, Wakeups.owns]
  · simp [State.go, Wakeups.owns]

theorem backsOut_leave (h : Follows s a) (hi : s.improper t = true)
    (hp : s.state.place t = .leave unlocked) (hs : conditionWaitCommon owners s.state t = some next) :
    ∃ a', Steps a a' ∧ Follows { s with state := next } a' := by
  have hnext := hs
  have htwin := ((h.alike t).twin hi).1
  have howned := (h.alike t).owned
  have hsame := (h.alike t).semaphore
  obtain ⟨hlinks, hmutex, hqueue, harrival, harrivals, hremoved, htimed⟩ := h.shared
  simp only [conditionWaitCommon, hp, hi, Bool.true_and] at hnext htwin howned hsame
  cases hnext
  obtain ⟨rfl, hq⟩ := htwin
  have hs₁ : conditionWaitCommon owners a t = some ({ a with mutex := none }.go t .sleep) := by
    simp [conditionWaitCommon, hq]
  have hs₂ : sleepFails ({ a with mutex := none }.go t .sleep) t true =
      some ((State.go { a with mutex := none } t .sleep).go t (.recheck einval true)) := by
    simp [sleepFails, State.go]
  refine ⟨(State.go { a with mutex := none } t .sleep).go t (.recheck einval true),
    (steps_wait hs₁).trans (steps_one (i := .sleepFails t true) hs₂),
    h.backsOut hi hs ((moved_wait hs₁).trans (moved_go rfl rfl rfl rfl))
    ⟨hlinks, rfl, hqueue, harrival, harrivals, hremoved, htimed⟩ rfl (fun _ _ => rfl) ?_ ?_ ?_ ?_⟩
  · simp [State.go, Twin]
  · simpa [State.go, late] using hsame
  · simpa [State.go, Wakeups.owns] using howned
  · simp [State.go, Wakeups.owns]

theorem backsOut_recheck (h : Follows s a) (hi : s.improper t = true)
    (hp : s.state.place t = .recheck status unlocked)
    (hs : conditionWaitCommon owners s.state t = some next) :
    ∃ a', Steps a a' ∧ Follows { s with state := next } a' := by
  have hnext := hs
  have htwin := ((h.alike t).twin hi).1
  have howned := (h.alike t).owned
  have hsame := (h.alike t).semaphore
  obtain ⟨hlinks, hmutex, hqueue, harrival, harrivals, hremoved, htimed⟩ := h.shared
  simp only [conditionWaitCommon, hp, hi, Bool.true_and] at hnext htwin howned hsame
  obtain ⟨⟨hstatus, rfl⟩, hq⟩ := htwin
  obtain ⟨x, hget, rfl⟩ := Option.map_eq_some_iff.mp hnext
  have hnext' : conditionWaitCommon owners a t = some ({ a with mutex := x }.go t (.settle einval true)) := by
    simp [conditionWaitCommon, hq, hmutex, hget]
  refine ⟨_, steps_wait hnext', h.backsOut hi hs (moved_wait hnext')
    ⟨hlinks, rfl, hqueue, harrival, harrivals, hremoved, htimed⟩ rfl (fun _ _ => rfl) ?_ ?_ ?_ ?_⟩
  · simp [State.go, Twin, hstatus]
  · simpa [State.go, late] using hsame
  · simpa [State.go, Wakeups.owns] using howned
  · simp [State.go, Wakeups.owns]

theorem backsOut_settle (h : Follows s a) (hg : Wakeups.Good a) (hi : s.improper t = true)
    (hp : s.state.place t = .settle status unlocked) (hs : conditionWaitCommon owners s.state t = some next) :
    ∃ a', Steps a a' ∧ Follows { s with state := next } a' := by
  have hnext := hs
  have htwin := ((h.alike t).twin hi).1
  have howned := (h.alike t).owned
  obtain ⟨hlinks, hmutex, hqueue, harrival, harrivals, hremoved, htimed⟩ := h.shared
  simp only [conditionWaitCommon, hp, hi, Bool.true_and] at hnext htwin howned
  obtain ⟨⟨hstatus, rfl⟩, hq⟩ := htwin
  rw [Bool.not_false, Bool.or_true, if_pos rfl] at hnext
  cases hnext
  by_cases hlinked : s.state.links.linked t = true
  · have hnext' : conditionWaitCommon owners a t = some ((removeWaiter a t).go t (.resume einval true)) := by
      simp [conditionWaitCommon, hq, hlinks, hlinked]
    refine ⟨_, steps_wait hnext', h.backsOut hi hs (moved_wait hnext')
      ⟨?_, hmutex, ?_, harrival, harrivals, hremoved, htimed⟩ rfl (fun _ _ => rfl) ?_ ?_ ?_ ?_⟩
    · simp [State.go, removeWaiter, hlinks]
    · simp [State.go, removeWaiter, hqueue]
    · simp [State.go, Twin, hstatus]
    · simp [State.go, late]
    · simpa [State.go, removeWaiter, Wakeups.owns] using howned
    · simp [State.go, Wakeups.owns]
  · -- the waiter was removed by a signal: the token goes with the semaphore
    have hnot : t ∉ s.state.queue := by
      rw [← hqueue, ← hg.represents.linked t, hlinks]
      exact hlinked
    have hfalse : s.state.links.linked t = false := by simpa using hlinked
    obtain ⟨a', status', hnext', hshared, hplace, howner⟩ := settle_unlinked hq (hlinks ▸ hfalse)
    obtain ⟨hlinks', hmutex', hqueue', harrival', harrivals', hremoved', htimed'⟩ := hshared
    refine ⟨_, steps_wait hnext', h.backsOut hi hs (moved_wait hnext')
      ⟨?_, hmutex'.trans hmutex, ?_, harrival'.trans harrival, harrivals'.trans harrivals,
        hremoved'.trans hremoved, htimed'.trans htimed⟩ rfl (fun m _ => congrFun howner m) ?_ ?_ ?_ ?_⟩
    · simp [State.go, removeWaiter, remove_unlinked hfalse, hlinks', hlinks]
    · simp [State.go, removeWaiter, List.erase_of_not_mem hnot, hqueue', hqueue]
    · simp [State.go, Twin, hstatus, hplace]
    · simp [State.go, late]
    · simpa [State.go, howner, Wakeups.owns] using howned
    · simp [State.go, Wakeups.owns]

theorem backsOut_resume (h : Follows s a) (hi : s.improper t = true)
    (hp : s.state.place t = .resume status unlocked) (hs : conditionWaitCommon owners s.state t = some next) :
    ∃ a', Steps a a' ∧ Follows { s with state := next } a' := by
  have hnext := hs
  have htwin := ((h.alike t).twin hi).1
  have howned := (h.alike t).owned
  obtain ⟨hlinks, hmutex, hqueue, harrival, harrivals, hremoved, htimed⟩ := h.shared
  simp only [conditionWaitCommon, hp, hi, Bool.true_and] at hnext htwin howned
  cases hnext
  obtain ⟨⟨hstatus, rfl⟩, status', hq⟩ := htwin
  have hnext' : conditionWaitCommon owners a t = some ({ a with mutex := none }.go t (.destroy status' true)) := by
    simp [conditionWaitCommon, hq]
  refine ⟨_, steps_wait hnext', h.backsOut hi hs (moved_wait hnext')
    ⟨hlinks, rfl, hqueue, harrival, harrivals, hremoved, htimed⟩ rfl (fun _ _ => rfl) ?_ ?_ ?_ ?_⟩
  · simp [State.go, Twin, hstatus]
  · simp [State.go, late]
  · simpa [State.go, Wakeups.owns] using howned
  · simp [State.go, Wakeups.owns]

theorem backsOut_destroy (h : Follows s a) (hi : s.improper t = true)
    (hp : s.state.place t = .destroy status unlocked)
    (hs : conditionWaitCommon owners s.state t = some next) :
    ∃ a', Steps a a' ∧ Follows { s with state := next } a' := by
  have hnext := hs
  have hargument := ((h.alike t).twin hi).2 (calls_wait hs)
  have htwin := ((h.alike t).twin hi).1
  have howned := (h.alike t).owned
  obtain ⟨hlinks, hmutex, hqueue, harrival, harrivals, hremoved, htimed⟩ := h.shared
  simp only [conditionWaitCommon, hp, hi, Bool.true_and] at hnext htwin howned
  cases hnext
  obtain ⟨⟨hstatus, rfl⟩, status', hq⟩ := htwin
  have hown : a.userMutex (ownMutex t) = none := by simpa [Wakeups.owns] using howned
  obtain ⟨b, hb⟩ : ∃ b, b = (a.setSemaphore t none).go t (.relock status') := ⟨_, rfl⟩
  have hs₁ : conditionWaitCommon owners a t = some b := by
    simp [conditionWaitCommon, hq, hb]
  have hs₂ : conditionWaitCommon owners b t =
      some ((b.setMutex (ownMutex t) (some t)).go t (.returned status' true)) := by
    simp [conditionWaitCommon, hb, State.go, State.setSemaphore, hargument, hown]
  obtain ⟨c, hc⟩ : ∃ c, c = (b.setMutex (ownMutex t) (some t)).go t (.returned status' true) := ⟨_, rfl⟩
  rw [← hc] at hs₂
  have hs₃ : userUnlock owners c t (ownMutex t) = some (c.setMutex (ownMutex t) none) := by
    simp [userUnlock, hc, State.go, State.setMutex, Place.isUser, owners_owner]
  refine ⟨_, ((steps_wait hs₁).trans (steps_wait hs₂)).trans (steps_one (i := .userUnlock t _) hs₃),
    h.backsOut hi hs (((moved_wait hs₁).trans (moved_wait hs₂)).trans (moved_setMutex (Or.inl rfl)))
    ?_ rfl (fun m hm => ?_) ?_ ?_ ?_ ?_⟩
  · subst hc hb
    exact ⟨hlinks, hmutex, hqueue, harrival, harrivals, hremoved, htimed⟩
  · subst hc hb
    simp [State.go, State.setMutex, State.setSemaphore, hm]
  · simp [State.go, State.setMutex, hc, Twin, hstatus]
  · simp [State.go, State.setMutex, State.setSemaphore, hc, hb]
  · simp [State.go, State.setMutex, Wakeups.owns]
  · simp [State.go, Wakeups.owns]

end

/-- A step of an improper wait is one step or several of the wait with a mutex of its own: the wait
that could not release the mutex is aborted, and the one that returns gives its mutex back. -/
theorem follows_backsOut (h : Follows s a) (hg : Wakeups.Good a) (hi : s.improper t = true) {next : Owned}
    (hs : conditionWaitCommon owners s.state t = some next) :
    ∃ a', Steps a a' ∧ Follows { s with state := next } a' := by
  have htwin := ((h.alike t).twin hi).1
  cases hp : s.state.place t with
  | create => exact backsOut_create h hi hp hs
  | enter => exact backsOut_enter h hi hp hs
  | append => exact backsOut_append h hi hp hs
  | unlock => exact backsOut_unlock h hi hp hs
  | leave _ => exact backsOut_leave h hi hp hs
  | recheck _ _ => exact backsOut_recheck h hi hp hs
  | settle _ _ => exact backsOut_settle h hg hi hp hs
  | resume _ _ => exact backsOut_resume h hi hp hs
  | destroy _ _ => exact backsOut_destroy h hi hp hs
  | sleep | relock _ =>
    rw [hp] at htwin
    exact htwin.elim
  | _ =>
    simp only [conditionWaitCommon, hp] at hs
    cases hs

theorem follows_createFails (h : Follows s a) {next : Owned} (hs : createFails s.state t = some next) :
    ∃ a', Steps a a' ∧ Follows { s with state := next } a' := by
  unfold createFails at hs
  split at hs
  · rename_i hp
    cases hs
    have howned := (h.alike t).owned
    have hcalls : calls (s.state.place t) = true := by
      rw [hp]
      rfl
    cases hi : s.improper t with
    | false =>
      have hplace : a.place t = .create := ((h.alike t).same hi).1.trans hp
      have hs' : createFails a t = some (a.go t (.returned eagain true)) := by simp [createFails, hplace]
      exact ⟨_, steps_one (i := .createFails t) hs', follows_go h hi rfl⟩
    | true =>
      obtain ⟨htwin, -⟩ := (h.alike t).twin hi
      rw [hp] at htwin
      have hs₁ : createFails a t = some (a.go t (.returned eagain true)) := by
        simp [createFails, show a.place t = .create from htwin]
      rw [hp, hi, show Wakeups.owns .create = true from rfl, Bool.and_self, if_pos rfl] at howned
      have hs₂ : userUnlock owners (a.go t (.returned eagain true)) t (ownMutex t) =
          some ((a.go t (.returned eagain true)).setMutex (ownMutex t) none) := by
        simp [userUnlock, State.go, Place.isUser, howned, owners_owner]
      refine ⟨_, (steps_one (i := .createFails t) hs₁).trans (steps_one (i := .userUnlock t _) hs₂),
        h.improper hi (moved_go rfl rfl rfl rfl)
          ((moved_go rfl rfl rfl rfl).trans (moved_setMutex (Or.inl rfl))) h.shared rfl
          (fun m hm => Function.update_of_ne hm ..) ?_ ?_ (fun _ => hcalls) ?_ ?_⟩
      · simp [State.go, State.setMutex, Twin]
      · have hlate : late (s.state.place t) = false := by
          rw [hp]
          rfl
        exact Or.inl ((h.alike t).semaphore_eq hlate)
      · simp [State.go, State.setMutex, Wakeups.owns]
      · simp [State.go, Wakeups.owns]
  · cases hs

/-- An improper wait begins like one with a mutex of its own, just taken. -/
theorem follows_callImproper (h : Follows s a) {m : MutexId} {timed : Bool}
    (hs : step owners s (.callImproper t m timed) = some s') : ∃ a', Steps a a' ∧ Follows s' a' := by
  obtain ⟨next, hnext, rfl⟩ := Option.map_eq_some_iff.mp hs
  unfold callImproper at hnext
  split at hnext
  · rename_i hguard
    cases hnext
    simp only [Bool.and_eq_true, decide_eq_true_eq] at hguard
    obtain ⟨huser, hother⟩ := hguard
    obtain ⟨hnot, hlate⟩ := user_not_owns huser
    have howned := (h.alike t).owned
    rw [hnot, Bool.and_false, if_neg Bool.false_ne_true] at howned
    have hs₁ : userLock owners a t (ownMutex t) = some (a.setMutex (ownMutex t) (some t)) := by
      simp [userLock, (h.alike t).isUser, huser, howned]
    obtain ⟨b, hb⟩ : ∃ b, b = a.setMutex (ownMutex t) (some t) := ⟨_, rfl⟩
    have hs₂ : callWait owners b t (ownMutex t) timed = some { b.go t .create with
        argument := Function.update b.argument t (ownMutex t)
        timed := Function.update b.timed t timed
        removed := Function.update b.removed t false } := by
      simp [callWait, hb, State.setMutex, (h.alike t).isUser, huser, owners_owner]
    subst hb
    refine ⟨_, (steps_one (i := .userLock t _) hs₁).trans (steps_one (i := .callWait t _ timed) hs₂),
      h.after t h.links h.mutex h.queue h.arrival h.arrivals ?_ ?_ (fun k => ?_) ?_ ?_
        (fun _ _ => ⟨rfl, rfl⟩) ?_ (fun u hu => ?_) (fun _ _ _ hk => hk) ?_⟩
    · simp [State.setMutex, h.removed]
    · simp [State.setMutex, h.timed]
    · exact (Function.update_of_ne (ownMutex_ne t k).symm ..).trans (h.owner k)
    · exact fun u hu => Function.update_of_ne hu ..
    · exact fun u hu => ⟨Function.update_of_ne hu .., Function.update_of_ne hu ..⟩
    · exact fun u hu => ⟨Function.update_of_ne hu .., Function.update_of_ne hu ..⟩
    · exact Function.update_of_ne (ownMutex_ne_of_ne hu) ..
    · refine ⟨by simp [State.go, Twin], Or.inl ((h.alike t).semaphore_eq hlate), by simp, ?_, fun _ _ => ?_⟩
      · simp [State.go, State.setMutex, Wakeups.owns]
      · simpa [State.go, owners_owner] using hother
  · cases hnext

theorem follows_waiting (h : Follows s a) (hg : Wakeups.Good a) {next : Owned}
    (hs : conditionWaitCommon owners s.state t = some next) :
    ∃ a', Steps a a' ∧ Follows { s with state := next } a' := by
  cases hi : s.improper t with
  | false =>
    obtain ⟨a', hs', h'⟩ := follows_wait h hi hs
    exact ⟨a', steps_wait hs', h'⟩
  | true => exact follows_backsOut h hg hi hs

theorem not_improper (h : Follows s a)
    (hp : s.state.place t = .sleep ∨ ∃ status, s.state.place t = .relock status) :
    s.improper t = false := by
  refine h.waking fun q htwin => ?_
  rcases hp with hp | ⟨status, hp⟩
  · rw [hp] at htwin
    exact htwin
  · rw [hp] at htwin
    exact htwin

theorem follows_step (h : Follows s a) (hg : Wakeups.Good a) {i : Action} (hs : step owners s i = some s') :
    ∃ a', Steps a a' ∧ Follows s' a' := by
  cases i with
  | callImproper t m timed => exact follows_callImproper h hs
  | run i =>
    cases i with
    | callWait t m timed =>
      obtain ⟨a', hs', h'⟩ := follows_callWait h hs
      exact ⟨a', steps_one hs', h'⟩
    | callWake t all =>
      obtain ⟨a', hs', h'⟩ := follows_callWake h hs
      exact ⟨a', steps_one hs', h'⟩
    | wait t =>
      obtain ⟨next, hnext, rfl⟩ := Option.map_eq_some_iff.mp hs
      exact follows_waiting h hg hnext
    | createFails t =>
      obtain ⟨next, hnext, rfl⟩ := Option.map_eq_some_iff.mp hs
      exact follows_createFails h hnext
    | sleepFails t aborted =>
      obtain ⟨next, hnext, rfl⟩ := Option.map_eq_some_iff.mp hs
      have hp : s.state.place t = .sleep := by
        simp only [ConditionVariables.step, sleepFails] at hnext
        split at hnext
        · rename_i hguard
          simp only [Bool.and_eq_true, decide_eq_true_eq] at hguard
          exact hguard.1
        · cases hnext
      obtain ⟨a', hs', h'⟩ := follows_sleepFails h (not_improper h (Or.inl hp)) hnext
      exact ⟨a', steps_one (i := .sleepFails t aborted) hs', h'⟩
    | relockFails t code =>
      obtain ⟨next, hnext, rfl⟩ := Option.map_eq_some_iff.mp hs
      have hp : ∃ status, s.state.place t = .relock status := by
        simp only [ConditionVariables.step, relockFails] at hnext
        split at hnext
        · exact ⟨_, ‹_›⟩
        · cases hnext
      obtain ⟨a', hs', h'⟩ := follows_relockFails h (not_improper h (Or.inr hp)) hnext
      exact ⟨a', steps_one (i := .relockFails t code) hs', h'⟩
    | wake t =>
      obtain ⟨next, hnext, rfl⟩ := Option.map_eq_some_iff.mp hs
      obtain ⟨a', hs', h'⟩ := follows_wake h hg hnext
      exact ⟨a', steps_one (i := .wake t) hs', h'⟩
    | userLock t m =>
      obtain ⟨next, hnext, rfl⟩ := Option.map_eq_some_iff.mp hs
      simp only [ConditionVariables.step, userLock] at hnext
      split at hnext
      · rename_i huser
        obtain ⟨x, hlock, rfl⟩ := Option.map_eq_some_iff.mp hnext
        have hs' : userLock owners a t (2 * m) = some (a.setMutex (2 * m) x) := by
          simp [userLock, (h.alike t).isUser, h.owner, huser, hlock]
        exact ⟨_, steps_one (i := .userLock t _) hs',
          follows_setMutex h huser (Or.inr (owners_lock hlock).2)⟩
      · cases hnext
    | userUnlock t m =>
      obtain ⟨next, hnext, rfl⟩ := Option.map_eq_some_iff.mp hs
      simp only [ConditionVariables.step, userUnlock] at hnext
      split at hnext
      · rename_i hguard
        cases hnext
        simp only [Bool.and_eq_true, decide_eq_true_eq] at hguard
        have hs' : userUnlock owners a t (2 * m) = some (a.setMutex (2 * m) none) := by
          simp [userUnlock, (h.alike t).isUser, h.owner, hguard]
        exact ⟨_, steps_one (i := .userUnlock t _) hs', follows_setMutex h hguard.1 (Or.inl rfl)⟩
      · cases hnext

theorem waits_not_late (hp : Wakeups.waits p = true) : late p = false := by
  cases p <;> simp_all [Wakeups.waits, late]

theorem Follows.semaphore (h : Follows s a) (hp : Wakeups.waits (a.place t) = true) :
    a.semaphore t = s.state.semaphore t :=
  (h.alike t).semaphore_eq (waits_not_late ((h.alike t).waits ▸ hp))

theorem Follows.posted (h : Follows s a) : Wakeups.posted a = Wakeups.posted s.state := by
  unfold Wakeups.posted
  rw [h.mutex]
  exact Option.bind_congr fun u _ => (h.alike u).agrees.2.2

theorem Follows.wakeLeave (h : Follows s a) {all : Bool} {found done : List ThreadId}
    (hp : s.state.place t = .wakeLeave all found done) : a.place t = .wakeLeave all found done := by
  have hi : s.improper t = false := h.waking fun q htwin => by
    rw [hp] at htwin
    exact htwin
  exact ((h.alike t).same hi).1.trans hp

theorem Follows.intact (h : Follows s a) (hg : Wakeups.Good a) : Intact s := by
  have hd := hg.delivered
  exact {
    list := h.links ▸ h.queue ▸ hd.list
    order := h.queue ▸ h.arrival ▸ hd.order
    semaphores := fun t ht => by
      rw [← h.queue] at ht
      rw [← h.semaphore ((hg.fits t).queued.mp ht).1]
      exact hd.semaphores t ht
    posts := fun t all found done w hp => by
      have hi : s.improper t = false := h.waking fun q htwin => by
        rw [hp] at htwin
        exact htwin
      have hplace : a.place t = .post all found done w := ((h.alike t).same hi).1.trans hp
      have hwaits := (hg.target_waits hplace).2
      rw [← h.semaphore hwaits, (hg.fits w).semaphore]
      exact (Wakeups.inWait_of_waits hwaits).1
    signal := fun t found done hp => h.queue ▸ hd.signal t found done (h.wakeLeave hp)
    broadcast := fun t found done hp => h.queue ▸ hd.broadcast t found done (h.wakeLeave hp)
    proper := fun t code relocked hi hp => by
      rw [← h.removed]
      exact hd.returned t code relocked (((h.alike t).same hi).1.trans hp)
    improper := fun t code relocked hi hp => by
      have hwaits := (h.alike t).waits
      have hlate : late (s.state.place t) = false := by rw [hp]; rfl
      obtain ⟨htwin, -⟩ := (h.alike t).twin hi
      rw [hp] at htwin hwaits
      obtain ⟨hcode, code', relocked', hq⟩ := htwin
      have hout : t ∉ s.state.queue := by
        rw [← h.queue]
        exact ((hg.fits t).not_waiting hwaits).1
      refine ⟨hcode, hout, ?_, ?_⟩
      · have hlinked := (hg.represents.linked t).not.mpr (h.queue ▸ hout)
        rw [← h.links]
        simpa using hlinked
      · rw [← (h.alike t).semaphore_eq hlate]
        exact (hg.fits t).no_semaphore (by rw [hq]; rfl)
    token := fun t hp hr => by
      rw [← (h.alike t).waits] at hp
      rw [← h.removed] at hr
      rw [← h.semaphore hp, ← h.posted]
      exact hd.token t hp hr
    queued := fun t hp hr => by
      rw [← (h.alike t).waits] at hp
      rw [← h.removed] at hr
      rw [← h.queue]
      exact hd.queued t hp hr }

end

theorem good_steps {a a' : Owned} (h : Steps a a') (hg : Wakeups.Good a) : Wakeups.Good a' :=
  h.invariant hg fun _ _ _ hg _ hs => Wakeups.good_step hg hs

section
variable {μ σ : Type} (k : MutexKind ThreadId μ) (c : SemaphoreKind ThreadId σ)

def seenWaits (s : Waits μ σ) : OwnedWaits where
  state := seen k c s.state
  improper := s.improper

variable {k c} {s s' : Waits μ σ} {a : Owned} {i : Action}

theorem seenWaits_step (h : Plain k c s.state) (hlocked : Locked k s.state)
    (hs : step (objects k c) s i = some s') :
    step owners (seenWaits k c s) i = some (seenWaits k c s') ∧ Plain k c s'.state := by
  cases i with
  | run i =>
    obtain ⟨next, hnext, rfl⟩ := Option.map_eq_some_iff.mp hs
    obtain ⟨hseen, hplain⟩ := seen_step h hlocked hnext
    exact ⟨Option.map_eq_some_iff.mpr ⟨_, hseen, rfl⟩, hplain⟩
  | callImproper t m timed =>
    obtain ⟨next, hnext, rfl⟩ := Option.map_eq_some_iff.mp hs
    unfold callImproper at hnext
    split at hnext <;> cases hnext
    rename_i hguard
    exact ⟨Option.map_eq_some_iff.mpr ⟨_, if_pos hguard, rfl⟩, h.same rfl rfl rfl⟩

theorem seenWaits_start : seenWaits k c (start (objects k c)) = start owners := by
  rw [seenWaits, start, seen_initial]
  rfl

theorem Follows.locked (h : Follows (seenWaits k c s) a) (hg : Wakeups.Good a) : Locked k s.state := by
  intro t
  have hholds : holds (a.place t) = holds (s.state.place t) := by
    cases hi : s.improper t with
    | false => rw [((h.alike t).same hi).1]; rfl
    | true => exact twin_holds ((h.alike t).twin hi).1
  rw [← hholds, ← (hg.fits t).mutex, h.mutex]
  rfl

/-- With any mutexes and semaphores that obey ThreadX's laws. -/
theorem condition_intact
    (h : Runs.Reached (step (objects k c)) (fun _ _ => True) (start (objects k c)) s) :
    Intact (seenWaits k c s) := by
  obtain ⟨-, a, hfollows, hgood⟩ :
      Plain k c s.state ∧ ∃ a, Follows (seenWaits k c s) a ∧ Wakeups.Good a := by
    refine h.invariant (P := fun s => Plain k c s.state ∧
        ∃ a, Follows (seenWaits k c s) a ∧ Wakeups.Good a)
      ⟨plain_initial, initial owners, seenWaits_start ▸ follows_start, Wakeups.good_initial⟩ ?_
    rintro s s' i ⟨hplain, a, hfollows, hgood⟩ - hs
    obtain ⟨hseen, hplain'⟩ := seenWaits_step hplain (hfollows.locked hgood) hs
    obtain ⟨a', hsteps, hfollows'⟩ := follows_step hfollows hgood hseen
    exact ⟨hplain', a', hfollows', good_steps hsteps hgood⟩
  exact hfollows.intact hgood

end

/-- Thread 1 waits with a mutex that thread 0 owns. Before it can take its waiter out of the list
again, thread 2 has signalled it. -/
def signalledInVain : List Action :=
  [.run (.userLock 0 0), .callImproper 1 0 false, .run (.wait 1), .run (.wait 1), .run (.wait 1),
    .run (.wait 1), .run (.wait 1), .run (.callWake 2 false), .run (.wake 2), .run (.wake 2),
    .run (.wake 2), .run (.wake 2), .run (.wait 1), .run (.wait 1), .run (.wait 1), .run (.wait 1)]

theorem condition_intact_inVain :
    ∃ s, Runs.Reached (step threadx) (fun _ _ => True) (start threadx) s ∧
      s.state.place 1 = .returned eperm false ∧ s.state.removed 1 = true ∧
      Intact (seenWaits (mutexes ThreadId) (semaphores ThreadId) s) := by
  have hsome : (Runs.perform (step threadx) (start threadx) signalledInVain).isSome = true := by
    decide +kernel
  obtain ⟨s, hs⟩ := Option.isSome_iff_exists.mp hsome
  have hreached := Runs.reached_of_perform hs (Runs.performs_always (fun _ _ => trivial) _)
  have hplace : (Runs.perform (step threadx) (start threadx) signalledInVain).map
      (fun s => (s.state.place 1, s.state.removed 1)) = some (.returned eperm false, true) := by
    decide +kernel
  rw [hs, Option.map_some, Option.some.injEq, Prod.mk.injEq] at hplace
  exact ⟨s, hreached, hplace.1, hplace.2, condition_intact hreached⟩

end SimPLCity.FailingWaits
