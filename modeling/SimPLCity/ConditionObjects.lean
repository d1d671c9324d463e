import SimPLCity.ConditionVariables
import SimPLCity.ThreadXObjects

/-! What a condition variable sees of its ThreadX objects: the owners of the mutexes and the counts of
the semaphores. No mutex is locked twice and no semaphore is put while a thread is suspended on it,
so that every step with objects that obey the laws is one with owners and counts. -/

namespace SimPLCity.ConditionObjects
open ConditionVariables ThreadXObjects

section
variable {μ σ : Type} (k : MutexKind ThreadId μ) (c : SemaphoreKind ThreadId σ)

def objects : Objects μ σ where
  mutexCreate := k.made
  mutexOwner := k.owner
  mutexGet := k.get
  mutexPut := k.put
  semaphoreCreate := c.make 0
  semaphoreGet := c.get
  semaphorePut n := (c.put n).2

def seen (s : State μ σ) : Owned :=
  { s with
    mutex := k.owner s.mutex
    semaphore := fun t => (s.semaphore t).map c.count
    userMutex := fun m => k.owner (s.userMutex m) }

abbrev threadx : Objects (Mutex ThreadId) (Semaphore ThreadId) :=
  objects (mutexes ThreadId) (semaphores ThreadId)

/-- Who has locked the mutex has done so once. -/
def Once (x : μ) : Prop := k.owner x ≠ none → k.ownershipCount x ≤ 1

/-- The thread that has locked the mutex of the condition variable. -/
def Locked (s : State μ σ) : Prop := ∀ t, k.owner s.mutex = some t ↔ holds (s.place t) = true

/-- Under this the owners and the counts tell all that the code can find out. -/
structure Plain (s : State μ σ) : Prop where
  mutex : Once k s.mutex
  userMutex : ∀ m, Once k (s.userMutex m)
  semaphore : ∀ t n, s.semaphore t = some n → c.suspended n = []

variable {k c} {s s' : State μ σ} {x x' : μ} {n n' : σ} {t : ThreadId} {i : Action}

theorem get_seen (ht : k.owner x ≠ some t) (h : k.get x t = some x') :
    owners.mutexGet (k.owner x) t = some (k.owner x') ∧ Once k x' := by
  cases howner : k.owner x with
  | none =>
    obtain ⟨x₁, hget, howner', hcount, -⟩ := k.get_free x t howner
    obtain rfl := Option.some.inj (hget.symm.trans h)
    exact ⟨by rw [howner']; rfl, fun _ => Nat.le_of_eq hcount⟩
  | some u =>
    -- the owner itself could get the mutex again, and that would not be seen
    rw [howner, Ne, Option.some.injEq] at ht
    rw [k.get_taken x t u howner ht] at h
    cases h

theorem lock_seen (h : (objects k c).lockMutex x t = some x') :
    owners.lockMutex (k.owner x) t = some (k.owner x') ∧ Once k x' := by
  unfold Objects.lockMutex at h ⊢
  split at h
  · cases h
  · rename_i ht
    obtain ⟨hget, honce⟩ := get_seen ht h
    exact ⟨by rw [← hget]; exact if_neg ht, honce⟩

theorem put_seen (hx : Once k x) (ht : k.owner x = some t) : k.owner (k.put x) = none :=
  k.put_last x (hx (by rw [ht]; exact nofun))

theorem once_put (hx : Once k x) (ht : k.owner x = some t) : Once k (k.put x) :=
  fun h => absurd (put_seen hx ht) h

theorem token_seen (h : c.get n = some n') :
    owners.semaphoreGet (c.count n) = some (c.count n') ∧ c.suspended n' = c.suspended n := by
  obtain ⟨hcount, hsuspended⟩ := c.get_some h
  refine ⟨?_, hsuspended⟩
  rw [hcount]
  rfl

theorem empty_seen (h : c.get n = none) : owners.semaphoreGet (c.count n) = none := by
  refine if_neg fun hpos => ?_
  obtain ⟨n', hget, -⟩ := c.get_token n hpos
  rw [hget] at h
  cases h

theorem post_seen (h : c.suspended n = []) :
    c.count (c.put n).2 = c.count n + 1 ∧ c.suspended (c.put n).2 = [] := by
  obtain ⟨n', hput, hcount, hsuspended⟩ := c.put_token n h
  rw [hput]
  exact ⟨hcount, hsuspended⟩

theorem seen_setSemaphore {n : Option σ} :
    seen k c (s.setSemaphore t n) = (seen k c s).setSemaphore t (n.map c.count) := by
  simp only [seen, State.setSemaphore]
  congr 1
  funext u
  exact Function.apply_update (fun _ n => Option.map c.count n) s.semaphore t n u

theorem seen_setMutex {m : MutexId} :
    seen k c (s.setMutex m x) = (seen k c s).setMutex m (k.owner x) := by
  simp only [seen, State.setMutex]
  congr 1
  funext m'
  exact Function.apply_update (fun _ x => k.owner x) s.userMutex m x m'

theorem plain_setSemaphore {n : Option σ} (h : Plain k c s)
    (hn : ∀ n', n = some n' → c.suspended n' = []) : Plain k c (s.setSemaphore t n) where
  mutex := h.mutex
  userMutex := h.userMutex
  semaphore u n' hu := by
    simp only [State.setSemaphore, Function.update_apply] at hu
    split at hu
    · exact hn n' hu
    · exact h.semaphore u n' hu

theorem plain_setMutex {m : MutexId} (h : Plain k c s) (hx : Once k x) :
    Plain k c (s.setMutex m x) where
  mutex := h.mutex
  userMutex m' := by
    simp only [State.setMutex, Function.update_apply]
    split
    · exact hx
    · exact h.userMutex m'
  semaphore := h.semaphore

theorem plain_mutex (h : Plain k c s) (hx : Once k x) : Plain k c { s with mutex := x } :=
  ⟨hx, h.userMutex, h.semaphore⟩

theorem Plain.same (h : Plain k c s) (hmutex : s'.mutex = s.mutex)
    (huser : s'.userMutex = s.userMutex) (hsemaphore : s'.semaphore = s.semaphore) : Plain k c s' :=
  ⟨hmutex ▸ h.mutex, huser ▸ h.userMutex, hsemaphore ▸ h.semaphore⟩

theorem seen_created (h : Plain k c s) : seen k c (s.setSemaphore t (some (c.make 0))) =
      (seen k c s).setSemaphore t (some owners.semaphoreCreate) ∧
    Plain k c (s.setSemaphore t (some (c.make 0))) := by
  refine ⟨?_, plain_setSemaphore h ?_⟩
  · rw [seen_setSemaphore, Option.map_some, c.count_make]
    rfl
  · rintro _ ⟨⟩
    exact c.suspended_make 0

theorem seen_unlock {m : MutexId} (h : Plain k c s) (ht : k.owner (s.userMutex m) = some t) :
    seen k c (s.setMutex m (k.put (s.userMutex m))) =
        (seen k c s).setMutex m (owners.mutexPut ((seen k c s).userMutex m)) ∧
      Plain k c (s.setMutex m (k.put (s.userMutex m))) := by
  refine ⟨?_, plain_setMutex h (once_put (h.userMutex m) ht)⟩
  rw [seen_setMutex, put_seen (h.userMutex m) ht]
  rfl

theorem seen_put (h : Plain k c s) (ht : k.owner s.mutex = some t) :
    seen k c { s with mutex := k.put s.mutex } =
        { seen k c s with mutex := owners.mutexPut (seen k c s).mutex } ∧
      Plain k c { s with mutex := k.put s.mutex } := by
  refine ⟨?_, plain_mutex h (once_put h.mutex ht)⟩
  simp only [seen, put_seen h.mutex ht]
  rfl

theorem seen_token (h : Plain k c s) (hn : (s.semaphore t).bind c.get = some n') :
    ((seen k c s).semaphore t).bind owners.semaphoreGet = some (c.count n') ∧
      seen k c (s.setSemaphore t (some n')) = (seen k c s).setSemaphore t (some (c.count n')) ∧
      Plain k c (s.setSemaphore t (some n')) := by
  obtain ⟨n, hsem, hget⟩ := Option.bind_eq_some_iff.mp hn
  obtain ⟨htoken, hsuspended⟩ := token_seen hget
  refine ⟨?_, seen_setSemaphore, plain_setSemaphore h ?_⟩
  · simp only [seen, hsem, Option.map_some, Option.bind_some]
    exact htoken
  · rintro _ ⟨⟩
    rw [hsuspended]
    exact h.semaphore t n hsem

theorem seen_empty (hn : (s.semaphore t).bind c.get = none) :
    ((seen k c s).semaphore t).bind owners.semaphoreGet = none := by
  cases hsem : s.semaphore t with
  | none => simp only [seen, hsem, Option.map_none, Option.bind_none]
  | some n =>
    rw [hsem, Option.bind_some] at hn
    simp only [seen, hsem, Option.map_some, Option.bind_some]
    exact empty_seen hn

theorem Locked.free (h : Locked k s) (hp : holds (s.place t) = false) : k.owner s.mutex ≠ some t := by
  intro ht
  rw [(h t).mp ht] at hp
  cases hp

theorem seen_wait (h : Plain k c s) (hlocked : Locked k s)
    (hs : conditionWaitCommon (objects k c) s t = some s') :
    conditionWaitCommon owners (seen k c s) t = some (seen k c s') ∧ Plain k c s' := by
  have hplace : (seen k c s).place t = s.place t := rfl
  have hfree : holds (s.place t) = false → k.owner s.mutex ≠ some t := hlocked.free
  have howner : holds (s.place t) = true → k.owner s.mutex = some t := (hlocked t).mpr
  unfold conditionWaitCommon at hs ⊢
  rw [hplace]
  cases hp : s.place t <;> simp only [hp] at hs hfree howner ⊢ <;> try cases hs
  case create =>
    obtain ⟨hcreated, hplain⟩ := seen_created (t := t) h
    exact ⟨congrArg (fun x : Owned => some (State.go { x with links := s.links.reset t } t .enter))
      hcreated.symm, hplain.same rfl rfl rfl⟩
  case enter =>
    obtain ⟨x, hget, rfl⟩ := Option.map_eq_some_iff.mp hs
    obtain ⟨hget', honce⟩ := get_seen (hfree rfl) hget
    exact ⟨Option.map_eq_some_iff.mpr ⟨_, hget', rfl⟩, (plain_mutex h honce).same rfl rfl rfl⟩
  case append => exact ⟨rfl, h.same rfl rfl rfl⟩
  case unlock =>
    split at hs
    · rename_i ht
      cases hs
      obtain ⟨hunlock, hplain⟩ := seen_unlock h ht
      exact ⟨(if_pos ht).trans (congrArg (fun x : Owned => some (x.go t (.leave true)))
        hunlock.symm), hplain.same rfl rfl rfl⟩
    · rename_i ht
      cases hs
      exact ⟨if_neg ht, h.same rfl rfl rfl⟩
  case leave unlocked =>
    obtain ⟨hput, hplain⟩ := seen_put h (howner rfl)
    exact ⟨congrArg (fun x : Owned => some (x.go t (if unlocked then .sleep else .recheck eperm false)))
      hput.symm, hplain.same rfl rfl rfl⟩
  case sleep =>
    obtain ⟨n, htoken, rfl⟩ := Option.map_eq_some_iff.mp hs
    obtain ⟨htoken', htaken, hplain⟩ := seen_token h htoken
    exact ⟨Option.map_eq_some_iff.mpr ⟨_, htoken',
      congrArg (fun x : Owned => x.go t (.destroy 0 true)) htaken.symm⟩, hplain.same rfl rfl rfl⟩
  case recheck status unlocked =>
    obtain ⟨x, hget, rfl⟩ := Option.map_eq_some_iff.mp hs
    obtain ⟨hget', honce⟩ := get_seen (hfree rfl) hget
    exact ⟨Option.map_eq_some_iff.mpr ⟨_, hget', rfl⟩, (plain_mutex h honce).same rfl rfl rfl⟩
  case settle status unlocked =>
    split at hs
    · rename_i hlinked
      cases hs
      exact ⟨if_pos hlinked, h.same rfl rfl rfl⟩
    · rename_i hlinked
      split at hs
      · rename_i n htoken
        cases hs
        obtain ⟨htoken', htaken, hplain⟩ := seen_token h htoken
        refine ⟨(if_neg hlinked).trans ?_, hplain.same rfl rfl rfl⟩
        rw [htoken']
        exact congrArg (fun x : Owned => some (x.go t (.resume 0 unlocked))) htaken.symm
      · rename_i htoken
        cases hs
        refine ⟨(if_neg hlinked).trans ?_, h.same rfl rfl rfl⟩
        rw [seen_empty htoken]
        rfl
  case resume status unlocked =>
    obtain ⟨hput, hplain⟩ := seen_put h (howner rfl)
    exact ⟨congrArg (fun x : Owned => some (x.go t (.destroy status unlocked))) hput.symm,
      hplain.same rfl rfl rfl⟩
  case destroy status unlocked =>
    have hplain := plain_setSemaphore (t := t) h (n := none) nofun
    have hdeleted : seen k c (s.setSemaphore t none) = (seen k c s).setSemaphore t none :=
      seen_setSemaphore
    exact ⟨congrArg (fun x : Owned => some (x.go t
      (if unlocked then .relock status else .returned status false))) hdeleted.symm,
      hplain.same rfl rfl rfl⟩
  case relock status =>
    obtain ⟨x, hlock, rfl⟩ := Option.map_eq_some_iff.mp hs
    obtain ⟨hlock', honce⟩ := lock_seen hlock
    exact ⟨Option.map_eq_some_iff.mpr ⟨_, hlock', congrArg (fun x : Owned =>
      x.go t (.returned status true)) seen_setMutex.symm⟩, (plain_setMutex h honce).same rfl rfl rfl⟩

theorem seen_wake (h : Plain k c s) (hlocked : Locked k s)
    (hs : conditionWake (objects k c) s t = some s') :
    conditionWake owners (seen k c s) t = some (seen k c s') ∧ Plain k c s' := by
  have hplace : (seen k c s).place t = s.place t := rfl
  have hfree : holds (s.place t) = false → k.owner s.mutex ≠ some t := hlocked.free
  have howner : holds (s.place t) = true → k.owner s.mutex = some t := (hlocked t).mpr
  unfold conditionWake at hs ⊢
  rw [hplace]
  cases hp : s.place t <;> simp only [hp] at hs hfree howner ⊢ <;> try cases hs
  case wakeEnter all =>
    obtain ⟨x, hget, rfl⟩ := Option.map_eq_some_iff.mp hs
    obtain ⟨hget', honce⟩ := get_seen (hfree rfl) hget
    exact ⟨Option.map_eq_some_iff.mpr ⟨_, hget', rfl⟩, (plain_mutex h honce).same rfl rfl rfl⟩
  case wake all found done =>
    have hfirst : (seen k c s).links.first = s.links.first := rfl
    rw [hfirst]
    split at hs <;> cases hs <;> exact ⟨rfl, h.same rfl rfl rfl⟩
  case post all found done w =>
    obtain ⟨n, hsem, rfl⟩ := Option.map_eq_some_iff.mp hs
    obtain ⟨hcount, hsuspended⟩ := post_seen (h.semaphore w n hsem)
    have hput : seen k c (s.setSemaphore w (some (c.put n).2)) =
        (seen k c s).setSemaphore w (some (c.count n + 1)) := by
      rw [seen_setSemaphore, Option.map_some, hcount]
    refine ⟨Option.map_eq_some_iff.mpr ⟨c.count n, ?_, congrArg (fun x : Owned => x.go t
      (if all then .wake all found (done ++ [w]) else .wakeLeave all found (done ++ [w]))) hput.symm⟩,
      (plain_setSemaphore (t := w) h ?_).same rfl rfl rfl⟩
    · simp only [seen, hsem, Option.map_some]
    · rintro _ ⟨⟩
      exact hsuspended
  case wakeLeave all found done =>
    obtain ⟨hput, hplain⟩ := seen_put h (howner rfl)
    exact ⟨congrArg (fun x : Owned => some (x.go t .user)) hput.symm, hplain.same rfl rfl rfl⟩

theorem seen_step (h : Plain k c s) (hlocked : Locked k s) (hs : step (objects k c) s i = some s') :
    step owners (seen k c s) i = some (seen k c s') ∧ Plain k c s' := by
  cases i with
  | callWait t m timed =>
    simp only [step, callWait] at hs ⊢
    split at hs <;> cases hs
    rename_i hguard
    exact ⟨if_pos hguard, h.same rfl rfl rfl⟩
  | wait t => exact seen_wait h hlocked hs
  | createFails t =>
    simp only [step, createFails] at hs ⊢
    split at hs <;> cases hs
    rename_i hp
    exact ⟨if_pos hp, h.same rfl rfl rfl⟩
  | sleepFails t aborted =>
    simp only [step, sleepFails] at hs ⊢
    split at hs <;> cases hs
    rename_i hguard
    exact ⟨if_pos hguard, h.same rfl rfl rfl⟩
  | relockFails t code =>
    have hplace : (seen k c s).place t = s.place t := rfl
    simp only [step, relockFails] at hs ⊢
    rw [hplace]
    split at hs
    · split at hs <;> cases hs
      rename_i hcode
      exact ⟨if_pos hcode, h.same rfl rfl rfl⟩
    · cases hs
  | callWake t all =>
    simp only [step, callWake] at hs ⊢
    split at hs <;> cases hs
    rename_i huser
    exact ⟨if_pos huser, h.same rfl rfl rfl⟩
  | wake t => exact seen_wake h hlocked hs
  | userLock t m =>
    simp only [step, userLock] at hs ⊢
    split at hs
    · rename_i huser
      obtain ⟨x, hlock, rfl⟩ := Option.map_eq_some_iff.mp hs
      obtain ⟨hlock', honce⟩ := lock_seen hlock
      exact ⟨(if_pos huser).trans (Option.map_eq_some_iff.mpr ⟨_, hlock', seen_setMutex.symm⟩),
        plain_setMutex h honce⟩
    · cases hs
  | userUnlock t m =>
    simp only [step, userUnlock] at hs ⊢
    split at hs <;> cases hs
    rename_i hguard
    have ht := hguard
    simp only [Bool.and_eq_true, decide_eq_true_eq] at ht
    obtain ⟨hunlock, hplain⟩ := seen_unlock h ht.2
    exact ⟨(if_pos hguard).trans (congrArg some hunlock.symm), hplain⟩

theorem seen_initial : seen k c (initial (objects k c)) = initial owners := by
  simp only [seen, initial, objects, k.owner_made, owners_free, Option.map_none]

theorem plain_initial : Plain k c (initial (objects k c)) :=
  ⟨fun h => absurd k.owner_made h, fun _ h => absurd k.owner_made h, nofun⟩

end

end SimPLCity.ConditionObjects
