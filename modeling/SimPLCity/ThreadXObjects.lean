import SimPLCity.LazyCreation

/-! ThreadX mutexes and semaphores. ThreadX is not part of the repository: what its calls do is given
by laws, and for each kind of objects there is one that obeys them. -/

namespace SimPLCity.ThreadXObjects
open LazyCreation

/-- Mutexes: the owner, how often that has got the mutex, and the calls. `get` is refused while
another thread is the owner, `put` is the owner's, `hand` gives a free mutex to a thread that is
suspended, and `ends` ends the wait of one. Which thread is suspended longest or has the highest
priority is not told apart. -/
structure MutexKind (τ ν : Type*) [DecidableEq τ] extends Kind τ ν where
  owner : ν → Option τ
  ownershipCount : ν → Nat
  get : ν → τ → Option ν
  suspend : ν → τ → ν
  ends : ν → τ → ν
  put : ν → ν
  hand : ν → τ → ν
  owner_made : owner made = none
  get_free : ∀ m t, owner m = none → ∃ m', get m t = some m' ∧ owner m' = some t ∧
    ownershipCount m' = 1 ∧ suspended m' = suspended m
  get_owned : ∀ m t, owner m = some t → ∃ m', get m t = some m' ∧ owner m' = some t ∧
    ownershipCount m' = ownershipCount m + 1 ∧ suspended m' = suspended m
  get_taken : ∀ m t u, owner m = some u → u ≠ t → get m t = none
  owner_suspend : ∀ m t, owner (suspend m t) = owner m
  ownershipCount_suspend : ∀ m t, ownershipCount (suspend m t) = ownershipCount m
  suspended_suspend : ∀ m t, suspended (suspend m t) = suspended m ++ [t]
  owner_ends : ∀ m t, owner (ends m t) = owner m
  ownershipCount_ends : ∀ m t, ownershipCount (ends m t) = ownershipCount m
  suspended_ends : ∀ m t, suspended (ends m t) = (suspended m).erase t
  put_again : ∀ m, 1 < ownershipCount m →
    owner (put m) = owner m ∧ ownershipCount (put m) = ownershipCount m - 1
  put_last : ∀ m, ownershipCount m ≤ 1 → owner (put m) = none
  suspended_put : ∀ m, suspended (put m) = suspended m
  owner_hand : ∀ m w, owner (hand m w) = some w
  ownershipCount_hand : ∀ m w, ownershipCount (hand m w) = 1
  suspended_hand : ∀ m w, suspended (hand m w) = (suspended m).erase w

/-- Semaphores: the count, and the calls. `get` is refused without a token, `put` gives its token to
the thread that has been suspended first, and `ends` ends the wait of one. -/
structure SemaphoreKind (τ ν : Type*) [DecidableEq τ] where
  make : Nat → ν
  suspended : ν → List τ
  count : ν → Nat
  get : ν → Option ν
  suspend : ν → τ → ν
  ends : ν → τ → ν
  put : ν → Option τ × ν
  count_make : ∀ c, count (make c) = c
  suspended_make : ∀ c, suspended (make c) = []
  get_token : ∀ m, 0 < count m → ∃ m', get m = some m' ∧ count m' = count m - 1 ∧
    suspended m' = suspended m
  get_empty : ∀ m, count m = 0 → get m = none
  count_suspend : ∀ m t, count (suspend m t) = count m
  suspended_suspend : ∀ m t, suspended (suspend m t) = suspended m ++ [t]
  count_ends : ∀ m t, count (ends m t) = count m
  suspended_ends : ∀ m t, suspended (ends m t) = (suspended m).erase t
  put_token : ∀ m, suspended m = [] → ∃ m', put m = (none, m') ∧ count m' = count m + 1 ∧
    suspended m' = []
  put_first : ∀ m w ws, suspended m = w :: ws → ∃ m', put m = (some w, m') ∧ count m' = count m ∧
    suspended m' = ws

/-- A semaphore that is created with `c` tokens. -/
def SemaphoreKind.toKind {τ ν : Type*} [DecidableEq τ] (k : SemaphoreKind τ ν) (c : Nat) : Kind τ ν where
  made := k.make c
  suspended := k.suspended
  empty := k.suspended_make c

/-- A ThreadX mutex: its owner, how often that has got it, and the threads that are suspended. -/
structure Mutex (τ : Type*) where
  owner : Option τ := none
  ownershipCount : Nat := 0
  suspended : List τ := []
deriving DecidableEq, Repr

structure Semaphore (τ : Type*) where
  count : Nat
  suspended : List τ := []
deriving DecidableEq, Repr

section
variable {τ : Type*} [DecidableEq τ]

def Mutex.get (m : Mutex τ) (t : τ) : Option (Mutex τ) :=
  match m.owner with
  | none => some { m with owner := some t, ownershipCount := 1 }
  | some u => if u = t then some { m with ownershipCount := m.ownershipCount + 1 } else none

def Mutex.put (m : Mutex τ) : Mutex τ :=
  if 1 < m.ownershipCount then { m with ownershipCount := m.ownershipCount - 1 }
  else { m with owner := none, ownershipCount := 0 }

def mutexes (τ : Type*) [DecidableEq τ] : MutexKind τ (Mutex τ) where
  made := {}
  suspended := Mutex.suspended
  empty := rfl
  owner := Mutex.owner
  ownershipCount := Mutex.ownershipCount
  get := Mutex.get
  suspend m t := { m with suspended := m.suspended ++ [t] }
  ends m t := { m with suspended := m.suspended.erase t }
  put := Mutex.put
  hand m w := { owner := some w, ownershipCount := 1, suspended := m.suspended.erase w }
  owner_made := rfl
  get_free m t h := ⟨{ m with owner := some t, ownershipCount := 1 },
    by simp only [Mutex.get, h], rfl, rfl, rfl⟩
  get_owned m t h := ⟨{ m with ownershipCount := m.ownershipCount + 1 },
    by simp only [Mutex.get, h, if_true], h, rfl, rfl⟩
  get_taken m t u h hut := by simp only [Mutex.get, h, if_neg hut]
  owner_suspend _ _ := rfl
  ownershipCount_suspend _ _ := rfl
  suspended_suspend _ _ := rfl
  owner_ends _ _ := rfl
  ownershipCount_ends _ _ := rfl
  suspended_ends _ _ := rfl
  put_again m h := by simp only [Mutex.put, if_pos h, and_self]
  put_last m h := by simp only [Mutex.put, if_neg (Nat.not_lt.mpr h)]
  suspended_put m := by
    unfold Mutex.put
    split <;> rfl
  owner_hand _ _ := rfl
  ownershipCount_hand _ _ := rfl
  suspended_hand _ _ := rfl

def Semaphore.put (m : Semaphore τ) : Option τ × Semaphore τ :=
  match m.suspended with
  | [] => (none, { m with count := m.count + 1 })
  | w :: ws => (some w, { m with suspended := ws })

def semaphores (τ : Type*) [DecidableEq τ] : SemaphoreKind τ (Semaphore τ) where
  make c := { count := c }
  suspended := Semaphore.suspended
  count := Semaphore.count
  get m := if 0 < m.count then some { m with count := m.count - 1 } else none
  suspend m t := { m with suspended := m.suspended ++ [t] }
  ends m t := { m with suspended := m.suspended.erase t }
  put := Semaphore.put
  count_make _ := rfl
  suspended_make _ := rfl
  get_token m h := ⟨_, if_pos h, rfl, rfl⟩
  get_empty m h := if_neg (by rw [h]; exact Nat.lt_irrefl 0)
  count_suspend _ _ := rfl
  suspended_suspend _ _ := rfl
  count_ends _ _ := rfl
  suspended_ends _ _ := rfl
  put_token m h := ⟨{ m with count := m.count + 1 }, by simp only [Semaphore.put, h], rfl, h⟩
  put_first m w ws h := ⟨{ m with suspended := ws }, by simp only [Semaphore.put, h], rfl, rfl⟩

end

namespace MutexKind
variable {τ ν : Type*} [DecidableEq τ] (k : MutexKind τ ν) {m m' : ν} {t u : τ}

/-- How often the thread has got the mutex. -/
def share (m : ν) (t : τ) : Nat := if k.owner m = some t then k.ownershipCount m else 0

theorem share_owner (h : k.owner m = some t) : k.share m t = k.ownershipCount m := if_pos h

theorem share_other (h : k.owner m = some u) (hut : u ≠ t) : k.share m t = 0 := by
  refine if_neg ?_
  rw [h, Option.some.injEq]
  exact hut

theorem share_free (h : k.owner m = none) : k.share m t = 0 := by
  refine if_neg ?_
  rw [h]
  exact nofun

theorem get_some (h : k.get m t = some m') : k.owner m' = some t ∧
    k.ownershipCount m' = k.share m t + 1 ∧ k.suspended m' = k.suspended m ∧
    ∀ u, u ≠ t → k.share m u = 0 := by
  cases howner : k.owner m with
  | none =>
    obtain ⟨m₁, hget, howner', hcount, hsuspended⟩ := k.get_free m t howner
    obtain rfl := Option.some.inj (hget.symm.trans h)
    exact ⟨howner', by rw [hcount, k.share_free howner], hsuspended, fun _ _ => k.share_free howner⟩
  | some v =>
    by_cases hvt : v = t
    · subst hvt
      obtain ⟨m₁, hget, howner', hcount, hsuspended⟩ := k.get_owned m v howner
      obtain rfl := Option.some.inj (hget.symm.trans h)
      exact ⟨howner', by rw [hcount, k.share_owner howner], hsuspended,
        fun _ hu => k.share_other howner (Ne.symm hu)⟩
    · rw [k.get_taken m t v howner hvt] at h
      cases h

theorem get_none (h : k.get m t = none) : ∃ u, k.owner m = some u ∧ u ≠ t := by
  cases howner : k.owner m with
  | none =>
    obtain ⟨m₁, hget, -⟩ := k.get_free m t howner
    rw [hget] at h
    cases h
  | some v =>
    refine ⟨v, rfl, ?_⟩
    rintro rfl
    obtain ⟨m₁, hget, -⟩ := k.get_owned m v howner
    rw [hget] at h
    cases h

theorem share_suspend : k.share (k.suspend m t) u = k.share m u := by
  rw [share, k.owner_suspend, k.ownershipCount_suspend, share]

theorem share_ends : k.share (k.ends m t) u = k.share m u := by
  rw [share, k.owner_ends, k.ownershipCount_ends, share]

end MutexKind

theorem SemaphoreKind.get_some {τ ν : Type*} [DecidableEq τ] (k : SemaphoreKind τ ν) {m m' : ν}
    (h : k.get m = some m') : k.count m = k.count m' + 1 ∧ k.suspended m' = k.suspended m := by
  rcases Nat.eq_zero_or_pos (k.count m) with hzero | hpos
  · rw [k.get_empty m hzero] at h
    cases h
  · obtain ⟨m₁, hget, hcount, hsuspended⟩ := k.get_token m hpos
    obtain rfl := Option.some.inj (hget.symm.trans h)
    exact ⟨by omega, hsuspended⟩

end SimPLCity.ThreadXObjects
