import SimPLCity.KeyService

/-! The destructors of an exiting thread's keys. Any thread creates and deletes keys at any time, also
between the two halves of an iteration of `run_thread_specific_destructors` and while a destructor
runs; the exiting thread stores values before its exit and in its destructors. -/

namespace SimPLCity.KeyDestructors
open ThreadKeys
open KeyService (Recent RecentlyStored)

/-- A call of a destructor: of which creation's key, the number of the store that the value is from,
and what the destructor finds in the slot. -/
structure Call where
  destructor : Destructor
  creation : Creation
  value : Value
  store : Option Nat
  found : Option Value
deriving DecidableEq, Repr

/-- `running` is whether the thread is in a destructor. The others but `keys` are for the proofs
only: the destructor of each creation, the thread's stores of a value and which of them is in a slot,
the creation seen in the first half of the iteration, the calls, the passes that are complete and
the halves of iterations that have been taken. -/
structure Exit where
  keys : Keys := {}
  running : Bool := false
  destructors : Creation → Option Destructor := fun _ => none
  stores : List (Creation × Value) := []
  held : Nat → Option Nat := fun _ => none
  seen : Nat := 0
  calls : List Call := []
  passes : Nat := 0
  halves : Nat := 0

def start : Exit := {}

def create (s : Exit) (destructor : Option Destructor) : Exit :=
  let keys := (keyCreate s.keys destructor).1
  { s with
    keys
    destructors := fun c =>
      if s.keys.creations c.index < c.serial ∧ c.serial = keys.creations c.index then destructor
      else s.destructors c }

def delete (s : Exit) (c : Creation) : Exit := { s with keys := (keyDelete s.keys c.handle).1 }

section
variable (t : ThreadId)

def store (s : Exit) (c : Creation) (v : Option Value) : Exit :=
  if s.keys.has c.handle then
    { s with
      keys := (keySet s.keys t c.handle v).1
      stores := s.stores ++ (v.map fun x => (c, x)).toList
      held := Function.update s.held c.index (v.map fun _ => s.stores.length) }
  else s

/-- The iteration for this slot is the last one of its pass. -/
def ends (i : Nat) : Nat := if i + 1 < runtimeThreadKeyCount then 0 else 1

/-- The next half of an iteration; with the second one a destructor may begin. -/
def scan (s : Exit) : Exit :=
  let next : Exit :=
    { s with keys := (runThreadSpecificDestructors s.keys t).1, halves := s.halves + 1 }
  match s.keys.scan t with
  | .fetch _ i _ => { next with seen := s.keys.creations i }
  | .fetched _ i _ _ _ =>
    let next := { next with passes := s.passes + ends i }
    match (runThreadSpecificDestructors s.keys t).2 with
    | .called d x =>
      { next with
        running := true
        held := Function.update s.held i none
        calls := s.calls ++ [⟨d, ⟨i, s.seen⟩, x, s.held i, next.keys.values t i⟩] }
    | _ => next
  | _ => next

inductive Action
  | create (destructor : Option Destructor)
  | delete (c : Creation)
  | store (c : Creation) (v : Option Value)
  | scan
  | returns
deriving DecidableEq, Repr

/-- The thread runs code of the program: its body, or a destructor. -/
def inUserCode (s : Exit) : Bool := s.keys.scan t = .idle || s.running

def step (s : Exit) : Action → Option Exit
  | .create destructor => some (create s destructor)
  | .delete c => some (delete s c)
  | .store c v => if inUserCode t s then some (store t s c v) else none
  | .scan => if s.running || s.keys.scan t = .finished then none else some (scan t s)
  | .returns => if s.running then some { s with running := false } else none

/-- The condition on a step: the handle and the value that it uses are recent. -/
def UsesRecent (s : Exit) : Action → Prop
  | .delete c | .store c _ => Recent s.keys c
  | .scan =>
    match s.keys.scan t with
    | .fetched _ i _ _ _ => RecentlyStored s.keys t i
    | _ => True
  | _ => True

/-- The value was stored under the creation whose destructor is called, and its slot is cleared. -/
structure Delivers (s : Exit) (call : Call) : Prop where
  destructor : s.destructors call.creation = some call.destructor
  store : ∃ n, call.store = some n ∧ s.stores[n]? = some (call.creation, call.value)
  cleared : call.found = none

/-- No live key with a destructor has a value of its own creation in the slot. -/
def Clean (s : Exit) (i : Nat) : Prop :=
  (s.keys.keys i).allocated = true → (s.keys.keys i).destructor ≠ none →
    s.keys.latest t i = s.keys.creations i → s.keys.values t i = none

/-- The halves of iterations that four passes have, and the start. -/
abbrev maximumHalves : Nat := 1 + destructorIterations * runtimeThreadKeyCount * 2

structure Destroyed (s : Exit) : Prop where
  delivers : ∀ call ∈ s.calls, Delivers s call
  once : (s.calls.map Call.store).Nodup
  bounded : s.halves ≤ maximumHalves
  proceeds : s.running = false → s.keys.scan t ≠ .finished → ∃ s', step t s .scan = some s'
  finished : s.keys.scan t = .finished → s.running = false →
    s.passes = destructorIterations ∨ ∀ i, Clean t s i

/-- What the key table and the thread's slots are, by their creations. -/
structure Slots (s : Exit) : Prop where
  generation : ∀ i, (s.keys.keys i).generation = generationOf (s.keys.creations i)
  destructor : ∀ i, (s.keys.keys i).allocated = true →
    (s.keys.keys i).destructor = s.destructors ⟨i, s.keys.creations i⟩
  beyond : ∀ i, runtimeThreadKeyCount ≤ i →
    (s.keys.keys i).allocated = false ∧ s.keys.creations i = 0
  stamp : ∀ i, s.keys.generations t i = generationOf (s.keys.latest t i)
  latest : ∀ i, s.keys.latest t i ≤ s.keys.creations i
  never : ∀ i, s.keys.latest t i = 0 → s.keys.values t i = none

/-- Where the thread's values are from. -/
structure Stored (s : Exit) : Prop where
  held : ∀ i x, s.keys.values t i = some x →
    ∃ n, s.held i = some n ∧ s.stores[n]? = some (⟨i, s.keys.latest t i⟩, x)
  home : ∀ i n, s.held i = some n → ∃ c x, s.stores[n]? = some (c, x) ∧ c.index = i
  fresh : ∀ i n, s.held i = some n → some n ∉ s.calls.map Call.store
  delivers : ∀ call ∈ s.calls, Delivers s call
  made : ∀ call ∈ s.calls, call.creation.serial ≤ s.keys.creations call.creation.index
  once : (s.calls.map Call.store).Nodup

/-- What the first half of the iteration has read is of the creation that it has seen. -/
structure Seen (s : Exit) (i : Nat) (destructor : Option Destructor) (stamp : Nat) : Prop where
  stamp : stamp = generationOf s.seen
  latest : s.keys.latest t i ≤ s.seen
  creations : s.seen ≤ s.keys.creations i
  read : ∀ d, destructor = some d → s.destructors ⟨i, s.seen⟩ = some d
  same : s.keys.creations i = s.seen → (s.keys.keys i).allocated = true →
    (s.keys.keys i).destructor = destructor

/-- The pass so far has called a destructor, or left the slots before this one clean. -/
structure Passing (s : Exit) (pass i : Nat) (invoked : Bool) : Prop where
  passes : s.passes = pass
  pass : pass < destructorIterations
  index : i < runtimeThreadKeyCount
  clean : invoked = false → ∀ j < i, Clean t s j

/-- What holds where the thread is in its loop over the keys. -/
def Spot (s : Exit) : Scan → Prop
  | .idle => s.passes = 0 ∧ s.running = false
  | .fetch pass i invoked =>
    Passing t s pass i invoked ∧ (s.running = true → invoked = true ∨ i = 0)
  | .fetched pass i invoked destructor stamp =>
    Passing t s pass i invoked ∧ s.running = false ∧ Seen t s i destructor stamp
  | .finished => s.passes = destructorIterations ∨ s.running = false ∧ ∀ j, Clean t s j

/-- The halves of iterations that may follow. -/
def left : Scan → Nat
  | .idle => maximumHalves
  | .fetch pass i _ => 2 * (destructorIterations * runtimeThreadKeyCount - (runtimeThreadKeyCount * pass + i))
  | .fetched pass i _ _ _ =>
    2 * (destructorIterations * runtimeThreadKeyCount - (runtimeThreadKeyCount * pass + i)) - 1
  | .finished => 0

structure Good (s : Exit) : Prop where
  slots : Slots t s
  stored : Stored t s
  spot : Spot t s (s.keys.scan t)
  bounded : s.halves + left (s.keys.scan t) ≤ maximumHalves

theorem good_start : Good t start where
  slots :=
    { generation := fun _ => rfl
      destructor := fun _ _ => rfl
      beyond := fun _ _ => ⟨rfl, rfl⟩
      stamp := fun _ => rfl
      latest := fun _ => Nat.le_refl _
      never := fun _ _ => rfl }
  stored :=
    { held := by simp [start]
      home := by simp [start]
      fresh := by simp [start]
      delivers := by simp [start]
      made := by simp [start]
      once := List.nodup_nil }
  spot := ⟨rfl, rfl⟩
  bounded := Nat.le_of_eq (Nat.zero_add _)

/-- What a creation or a deletion leaves as it is. -/
structure Later (s s' : Exit) : Prop where
  values : s'.keys.values t = s.keys.values t
  latest : s'.keys.latest t = s.keys.latest t
  scan : s'.keys.scan t = s.keys.scan t
  creations : ∀ i, s.keys.creations i ≤ s'.keys.creations i
  same : ∀ i, s'.keys.creations i = s.keys.creations i → (s'.keys.keys i).allocated = true →
    (s.keys.keys i).allocated = true ∧ (s'.keys.keys i).destructor = (s.keys.keys i).destructor
  destructors : ∀ c, c.serial ≤ s.keys.creations c.index → s'.destructors c = s.destructors c
  thread : s' = { s with keys := s'.keys, destructors := s'.destructors }

section
variable {t} {s s' : Exit} {i : Nat}

theorem Clean.later (h : Clean t s i) (hs : Slots t s) (hl : Later t s s') : Clean t s' i := by
  intro hallocated hdestructor hlatest
  rw [hl.latest] at hlatest
  have hsame : s'.keys.creations i = s.keys.creations i :=
    Nat.le_antisymm (hlatest ▸ hs.latest i) (hl.creations i)
  obtain ⟨hbefore, heq⟩ := hl.same i hsame hallocated
  rw [heq] at hdestructor
  rw [hl.values]
  exact h hbefore hdestructor (hlatest.trans hsame)

theorem Seen.later {destructor : Option Destructor} {stamp : Nat} (h : Seen t s i destructor stamp)
    (hl : Later t s s') : Seen t s' i destructor stamp := by
  have hseen : s'.seen = s.seen := by rw [hl.thread]
  obtain ⟨hstamp, hlatest, hcreations, hdestructor, hsame⟩ := h
  refine ⟨hseen ▸ hstamp, ?_, ?_, fun d hd => ?_, fun heq hallocated => ?_⟩
  · rw [hseen, hl.latest]
    exact hlatest
  · rw [hseen]
    exact Nat.le_trans hcreations (hl.creations i)
  · rw [hseen, hl.destructors ⟨i, s.seen⟩ hcreations]
    exact hdestructor d hd
  · have hle := hl.creations i
    rw [hseen] at heq
    have heq' : s'.keys.creations i = s.keys.creations i := by omega
    obtain ⟨hbefore, hd⟩ := hl.same i heq' hallocated
    rw [hd]
    exact hsame (heq' ▸ heq) hbefore

theorem Spot.later {p : Scan} (h : Spot t s p) (hs : Slots t s) (hl : Later t s s') : Spot t s' p := by
  have hpasses : s'.passes = s.passes := by rw [hl.thread]
  have hrunning : s'.running = s.running := by rw [hl.thread]
  have hpassing : ∀ {pass i invoked}, Passing t s pass i invoked → Passing t s' pass i invoked :=
    fun hp => ⟨hpasses.trans hp.passes, hp.pass, hp.index, fun hi j hj => (hp.clean hi j hj).later hs hl⟩
  cases p with
  | idle => exact ⟨hpasses.trans h.1, hrunning.trans h.2⟩
  | fetch pass i invoked => exact ⟨hpassing h.1, fun hr => h.2 (hrunning ▸ hr)⟩
  | fetched pass i invoked destructor stamp =>
    exact ⟨hpassing h.1, hrunning.trans h.2.1, h.2.2.later hl⟩
  | finished => exact h.imp hpasses.trans fun hc => ⟨hrunning.trans hc.1, fun j => (hc.2 j).later hs hl⟩

theorem Stored.later (h : Stored t s) (hl : Later t s s') : Stored t s' := by
  obtain ⟨hheld, hhome, hfresh, hdelivers, hmade, honce⟩ := h
  have hstores : s'.stores = s.stores := by rw [hl.thread]
  have hholds : s'.held = s.held := by rw [hl.thread]
  have hcalls : s'.calls = s.calls := by rw [hl.thread]
  constructor
  · rw [hl.values, hl.latest, hholds, hstores]
    exact hheld
  · rw [hholds, hstores]
    exact hhome
  · rw [hholds, hcalls]
    exact hfresh
  · rw [hcalls]
    intro call hcall
    obtain ⟨hdestructor, hstore, hcleared⟩ := hdelivers call hcall
    refine ⟨?_, ?_, hcleared⟩
    · rw [hl.destructors _ (hmade call hcall)]
      exact hdestructor
    · rw [hstores]
      exact hstore
  · rw [hcalls]
    exact fun call hcall => Nat.le_trans (hmade call hcall) (hl.creations _)
  · rw [hcalls]
    exact honce

theorem Good.later (h : Good t s) (hs : Slots t s') (hl : Later t s s') : Good t s' where
  slots := hs
  stored := h.stored.later hl
  spot := by
    rw [hl.scan]
    exact h.spot.later h.slots hl
  bounded := by
    have hhalves : s'.halves = s.halves := by rw [hl.thread]
    rw [hhalves, hl.scan]
    exact h.bounded

theorem keyCreate_cases (k : Keys) (destructor : Option Destructor) :
    (keyCreate k destructor).1 = k ∨ ∃ i < runtimeThreadKeyCount, (k.keys i).allocated = false ∧
      (keyCreate k destructor).1 = { k with
        keys := Function.update k.keys i
          { allocated := true, destructor, generation := nextGeneration (k.keys i).generation }
        creations := Function.update k.creations i (k.creations i + 1) } := by
  unfold keyCreate
  split
  · rename_i i hfind
    have hi := List.mem_range.mp (List.mem_of_find?_eq_some hfind)
    have hfree := List.find?_some hfind
    exact Or.inr ⟨i, hi, by simpa using hfree, rfl⟩
  · exact Or.inl rfl

theorem good_create (h : Good t s) (destructor : Option Destructor) : Good t (create s destructor) := by
  rcases keyCreate_cases s.keys destructor with hsame | ⟨k, hk, hfree, hnew⟩
  · have heq : create s destructor = s := by
      simp only [create, hsame]
      have hd : (fun c => if s.keys.creations c.index < c.serial ∧ c.serial = s.keys.creations c.index
          then destructor else s.destructors c) = s.destructors := by
        funext c
        rw [if_neg (by omega)]
      rw [hd]
    rw [heq]
    exact h
  · have hs := h.slots
    have hcreations : ∀ j, s.keys.creations j ≤
        Function.update s.keys.creations k (s.keys.creations k + 1) j := by
      intro j
      by_cases hj : j = k
      · subst hj
        simp
      · simp [hj]
    have hold : ∀ c : Creation, c.serial ≤ s.keys.creations c.index →
        (create s destructor).destructors c = s.destructors c := by
      intro c hc
      simp only [create]
      rw [if_neg (by omega)]
    refine h.later ?_ ?_
    · constructor
      · intro j
        by_cases hj : j = k
        · subst hj
          simp only [create, hnew, Function.update_self]
          rw [hs.generation j, generationOf, generationOf, Function.iterate_succ_apply']
        · simp only [create, hnew, Function.update_of_ne hj]
          exact hs.generation j
      · intro j hallocated
        by_cases hj : j = k
        · subst hj
          simp [create, hnew]
        · have hsame : (create s destructor).keys.creations j = s.keys.creations j := by
            simp [create, hnew, hj]
          rw [hsame, hold ⟨j, s.keys.creations j⟩ (Nat.le_refl _)]
          simp only [create, hnew, Function.update_of_ne hj] at hallocated ⊢
          exact hs.destructor j hallocated
      · intro j hj
        have hne : j ≠ k := fun heq => absurd hk (Nat.not_lt.mpr (heq ▸ hj))
        simp only [create, hnew, Function.update_of_ne hne]
        exact hs.beyond j hj
      · simpa only [create, hnew] using hs.stamp
      · intro j
        simp only [create, hnew]
        exact Nat.le_trans (hs.latest j) (hcreations j)
      · simpa only [create, hnew] using hs.never
    · refine ⟨by simp [create, hnew], by simp [create, hnew], by simp [create, hnew], ?_, ?_, hold, rfl⟩
      · simpa only [create, hnew] using hcreations
      · intro j hsame hallocated
        have hj : j ≠ k := by
          rintro rfl
          simp [create, hnew] at hsame
        simp only [create, hnew, Function.update_of_ne hj] at hallocated ⊢
        exact ⟨hallocated, trivial⟩

theorem good_delete (h : Good t s) (c : Creation) : Good t (delete s c) := by
  unfold delete keyDelete
  split
  · have hs := h.slots
    refine h.later ?_ ?_
    · constructor
      · intro j
        by_cases hj : j = keyIndex c.handle
        · subst hj
          simpa using hs.generation _
        · simpa [hj] using hs.generation j
      · intro j hallocated
        by_cases hj : j = keyIndex c.handle
        · subst hj
          simp at hallocated
        · simp only [Function.update_of_ne hj] at hallocated ⊢
          exact hs.destructor j hallocated
      · intro j hj
        by_cases hne : j = keyIndex c.handle
        · subst hne
          simpa using (hs.beyond _ hj).2
        · simpa [hne] using hs.beyond j hj
      · exact hs.stamp
      · exact hs.latest
      · exact hs.never
    · refine ⟨rfl, rfl, rfl, fun _ => Nat.le_refl _, fun j _ hallocated => ?_, fun _ _ => rfl, rfl⟩
      by_cases hj : j = keyIndex c.handle
      · subst hj
        simp at hallocated
      · simp only [Function.update_of_ne hj] at hallocated ⊢
        exact ⟨hallocated, trivial⟩
  · exact h

theorem Slots.index_lt (hs : Slots t s) {c : Creation} (hr : Recent s.keys c) :
    c.index < runtimeThreadKeyCount := by
  by_contra hle
  have hzero := (hs.beyond _ (Nat.le_of_not_lt hle)).2
  have hpos := hr.1
  have hserial := hr.2.1
  omega

theorem Slots.has_iff (hs : Slots t s) {c : Creation} (hr : Recent s.keys c) :
    keyIndex c.handle = c.index ∧ keyGeneration c.handle = generationOf c.serial ∧
      (s.keys.has c.handle = true ↔
        (s.keys.keys c.index).allocated = true ∧ s.keys.creations c.index = c.serial) := by
  obtain ⟨hpos, hle, hlt⟩ := hr
  obtain ⟨hzero, hbound⟩ := KeyService.generationOf_bounds hpos
  obtain ⟨hindex, hgeneration⟩ := KeyService.key_makeKey (hs.index_lt ⟨hpos, hle, hlt⟩) hbound
  refine ⟨hindex, hgeneration, ?_⟩
  have hsame : generationOf (s.keys.creations c.index) = generationOf c.serial ↔
      s.keys.creations c.index = c.serial :=
    ⟨fun heq => (KeyService.generationOf_injective hpos hle hlt heq.symm).symm, fun heq => by rw [heq]⟩
  have hslot := hs.index_lt ⟨hpos, hle, hlt⟩
  simp only [Keys.has, Creation.handle, hindex, hgeneration, hs.generation, hsame, hslot, decide_true,
    Bool.true_and, Bool.and_eq_true, decide_eq_true_eq]
  simp [Nat.pos_iff_ne_zero.mp hzero]

theorem store_cases (hs : Slots t s) {c : Creation} (hr : Recent s.keys c) (v : Option Value) :
    ¬ s.keys.has c.handle = true ∧ store t s c v = s ∨
    s.keys.creations c.index = c.serial ∧ store t s c v = { s with
      keys := { s.keys with
        generations := update₂ s.keys.generations t c.index (generationOf c.serial)
        values := update₂ s.keys.values t c.index v
        latest := update₂ s.keys.latest t c.index c.serial }
      stores := s.stores ++ (v.map fun x => (c, x)).toList
      held := Function.update s.held c.index (v.map fun _ => s.stores.length) } := by
  obtain ⟨hindex, hgeneration, hhas⟩ := hs.has_iff hr
  unfold store
  split
  · rename_i hthere
    have hserial := (hhas.mp hthere).2
    refine Or.inr ⟨hserial, ?_⟩
    rw [keySet, if_pos hthere]
    simp only [hindex, hgeneration, hserial]
  · rename_i hnot
    exact Or.inl ⟨hnot, rfl⟩

theorem Stored.lt_length (h : Stored t s) {n : Nat} (hn : some n ∈ s.calls.map Call.store) :
    n < s.stores.length := by
  obtain ⟨call, hcall, hstore⟩ := List.mem_map.mp hn
  obtain ⟨m, hm, hget⟩ := (h.delivers call hcall).store
  rw [hstore] at hm
  cases hm
  exact (List.getElem?_eq_some_iff.mp hget).1

theorem Stored.store (h : Stored t s) {c : Creation} {v : Option Value} {s' : Exit}
    (hs' : s' = { s with
      keys := { s.keys with
        generations := update₂ s.keys.generations t c.index (generationOf c.serial)
        values := update₂ s.keys.values t c.index v
        latest := update₂ s.keys.latest t c.index c.serial }
      stores := s.stores ++ (v.map fun x => (c, x)).toList
      held := Function.update s.held c.index (v.map fun _ => s.stores.length) }) : Stored t s' := by
  obtain ⟨hheld, hhome, hfresh, hdelivers, hmade, honce⟩ := id h
  have hkeep : ∀ (n : Nat) (p : Creation × Value), s.stores[n]? = some p →
      (s.stores ++ (v.map fun x => (c, x)).toList)[n]? = some p := by
    intro n p hn
    rw [List.getElem?_append_left (List.getElem?_eq_some_iff.mp hn).1]
    exact hn
  have hnew : ∀ x, v = some x →
      (s.stores ++ (v.map fun x => (c, x)).toList)[s.stores.length]? = some (c, x) := by
    rintro x rfl
    simp
  subst hs'
  constructor
  · intro i x hx
    by_cases hi : i = c.index
    · subst hi
      simp only [KeyService.update₂_self] at hx
      refine ⟨s.stores.length, by simp [hx], ?_⟩
      simp only [KeyService.update₂_self]
      exact hnew x hx
    · simp only [KeyService.update₂_other _ _ (Or.inr hi)] at hx
      obtain ⟨n, hn, hget⟩ := hheld i x hx
      refine ⟨n, by simpa [hi] using hn, ?_⟩
      simp only [KeyService.update₂_other _ _ (Or.inr hi)]
      exact hkeep _ _ hget
  · intro i n hn
    by_cases hi : i = c.index
    · subst hi
      simp only [Function.update_self] at hn
      obtain ⟨x, hx, rfl⟩ := Option.map_eq_some_iff.mp hn
      exact ⟨c, x, hnew x hx, rfl⟩
    · simp only [Function.update_of_ne hi] at hn
      obtain ⟨d, x, hget, hd⟩ := hhome i n hn
      exact ⟨d, x, hkeep _ _ hget, hd⟩
  · intro i n hn
    by_cases hi : i = c.index
    · subst hi
      simp only [Function.update_self] at hn
      obtain ⟨x, hx, rfl⟩ := Option.map_eq_some_iff.mp hn
      exact fun hmem => absurd (h.lt_length hmem) (Nat.lt_irrefl _)
    · simp only [Function.update_of_ne hi] at hn
      exact hfresh i n hn
  · intro call hcall
    obtain ⟨hdestructor, ⟨n, hn, hget⟩, hcleared⟩ := hdelivers call hcall
    exact ⟨hdestructor, ⟨n, hn, hkeep _ _ hget⟩, hcleared⟩
  · exact hmade
  · exact honce

theorem good_store (h : Good t s) {c : Creation} (hr : Recent s.keys c) (huser : inUserCode t s = true)
    (v : Option Value) : Good t (store t s c v) := by
  rcases store_cases h.slots hr v with ⟨-, hsame⟩ | ⟨hserial, hnew⟩
  · rw [hsame]
    exact h
  · have hs := h.slots
    have hstored := h.stored.store hnew
    rw [hnew] at hstored ⊢
    refine ⟨⟨hs.generation, hs.destructor, hs.beyond, fun i => ?_, fun i => ?_, fun i => ?_⟩, hstored, ?_,
      h.bounded⟩
    · by_cases hi : i = c.index
      · subst hi
        simp only [KeyService.update₂_self]
      · simp only [KeyService.update₂_other _ _ (Or.inr hi)]
        exact hs.stamp i
    · by_cases hi : i = c.index
      · subst hi
        simp only [KeyService.update₂_self]
        exact Nat.le_of_eq hserial.symm
      · simp only [KeyService.update₂_other _ _ (Or.inr hi)]
        exact hs.latest i
    · by_cases hi : i = c.index
      · subst hi
        simp only [KeyService.update₂_self]
        have hpos := hr.1
        omega
      · simp only [KeyService.update₂_other _ _ (Or.inr hi)]
        exact hs.never i
    · -- a destructor of the pass has been called, so nothing is said about its slots
      have hspot := h.spot
      have huser := (Bool.or_eq_true_iff.mp huser).imp_left of_decide_eq_true
      cases hp : s.keys.scan t with
      | idle =>
        rw [hp] at hspot
        exact hspot
      | fetch pass i invoked =>
        rw [hp] at hspot
        obtain ⟨⟨hpasses, hpass, hindex, hclean⟩, hrunning⟩ := hspot
        refine ⟨⟨hpasses, hpass, hindex, fun hinvoked j hj => ?_⟩, hrunning⟩
        rcases hrunning (huser.resolve_left (by simp [hp])) with htrue | rfl
        · rw [hinvoked] at htrue
          cases htrue
        · exact absurd hj (Nat.not_lt_zero j)
      | fetched pass i invoked destructor stamp =>
        rw [hp] at hspot
        have hrunning := huser.resolve_left (by simp [hp])
        rw [hspot.2.1] at hrunning
        cases hrunning
      | finished =>
        rw [hp] at hspot
        have hrunning := huser.resolve_left (by simp [hp])
        exact Or.inl (hspot.resolve_right fun hc => by simp [hrunning] at hc)

theorem delete_cases (hs : Slots t s) {c : Creation} (hr : Recent s.keys c) :
    delete s c = s ∨ s.keys.creations c.index = c.serial ∧ delete s c = { s with
      keys := { s.keys with
        keys := Function.update s.keys.keys c.index
          { s.keys.keys c.index with allocated := false, destructor := none } } } := by
  obtain ⟨hindex, -, hhas⟩ := hs.has_iff hr
  unfold delete keyDelete
  split
  · rename_i hthere
    refine Or.inr ⟨(hhas.mp hthere).2, ?_⟩
    simp only [hindex]
  · exact Or.inl rfl

theorem scan_idle (hp : s.keys.scan t = .idle) : scan t s = { s with
    keys := { s.keys with scan := Function.update s.keys.scan t (.fetch 0 0 false) }
    halves := s.halves + 1 } := by
  simp only [scan, hp, runThreadSpecificDestructors]

theorem scan_fetch {pass : Nat} {invoked : Bool} (hp : s.keys.scan t = .fetch pass i invoked) :
    scan t s = { s with
      keys := { s.keys with
        scan := Function.update s.keys.scan t (.fetched pass i invoked
          (if (s.keys.keys i).allocated then (s.keys.keys i).destructor else none)
          (s.keys.keys i).generation) }
      halves := s.halves + 1
      seen := s.keys.creations i } := by
  simp only [scan, hp, runThreadSpecificDestructors]

/-- The second half calls the destructor that was read if there is a value of the generation that
was read. -/
theorem scan_fetched {pass stamp : Nat} {invoked : Bool} {destructor : Option Destructor}
    (hp : s.keys.scan t = .fetched pass i invoked destructor stamp) :
    (∃ d x, destructor = some d ∧ s.keys.values t i = some x ∧ s.keys.generations t i = stamp ∧
      scan t s = { s with
        keys := { s.keys with
          scan := Function.update s.keys.scan t (.next pass i true)
          values := update₂ s.keys.values t i none }
        halves := s.halves + 1
        passes := s.passes + ends i
        running := true
        held := Function.update s.held i none
        calls := s.calls ++ [⟨d, ⟨i, s.seen⟩, x, s.held i, none⟩] }) ∨
    (∀ d x, destructor = some d → s.keys.values t i = some x → s.keys.generations t i ≠ stamp) ∧
      scan t s = { s with
        keys := { s.keys with scan := Function.update s.keys.scan t (.next pass i invoked) }
        halves := s.halves + 1
        passes := s.passes + ends i } := by
  cases destructor with
  | none =>
    refine Or.inr ⟨fun _ _ hd => (nomatch hd), ?_⟩
    simp only [scan, hp, runThreadSpecificDestructors]
  | some d =>
    cases hx : s.keys.values t i with
    | none =>
      refine Or.inr ⟨fun _ _ _ hx => (nomatch hx), ?_⟩
      simp only [scan, hp, runThreadSpecificDestructors, hx]
    | some x =>
      by_cases hstamp : s.keys.generations t i = stamp
      · refine Or.inl ⟨d, x, rfl, rfl, hstamp, ?_⟩
        simp only [scan, hp, runThreadSpecificDestructors, hx, if_pos hstamp, KeyService.update₂_self]
      · refine Or.inr ⟨fun _ _ _ _ => hstamp, ?_⟩
        simp only [scan, hp, runThreadSpecificDestructors, hx, if_neg hstamp]

theorem ends_next {n : Nat} (hi : n < runtimeThreadKeyCount) :
    n + 1 < runtimeThreadKeyCount ∧ ends n = 0 ∨ n + 1 = runtimeThreadKeyCount ∧ ends n = 1 := by
  unfold ends
  split <;> omega

theorem left_next {pass stamp : Nat} {invoked called : Bool} {destructor : Option Destructor}
    (hpass : pass < destructorIterations) (hi : i < runtimeThreadKeyCount) :
    left (.next pass i called) + 1 ≤ left (.fetched pass i invoked destructor stamp) := by
  simp only [destructorIterations, runtimeThreadKeyCount] at hpass hi
  unfold Scan.next
  split
  · simp only [left, destructorIterations, runtimeThreadKeyCount]
    omega
  · rename_i hlast
    simp only [runtimeThreadKeyCount] at hlast
    split <;> simp only [left, destructorIterations, runtimeThreadKeyCount] <;> omega

theorem Passing.next {pass : Nat} {invoked called : Bool} (h : Passing t s pass i invoked)
    (hpasses : s'.passes = s.passes + ends i)
    (hclean : called = false → s'.running = false ∧ ∀ j ≤ i, Clean t s' j)
    (hbeyond : ∀ j, runtimeThreadKeyCount ≤ j → Clean t s' j) : Spot t s' (.next pass i called) := by
  obtain ⟨hat, hpass, hi, -⟩ := h
  have hrunning : s'.running = true → called = true := by
    intro hr
    cases called with
    | true => rfl
    | false =>
      rw [(hclean rfl).1] at hr
      cases hr
  unfold Scan.next
  rcases ends_next hi with ⟨hmore, hends⟩ | ⟨hlast, hends⟩ <;> rw [hends, hat] at hpasses
  · rw [if_pos hmore]
    exact ⟨⟨hpasses, hpass, hmore, fun hc j hj => (hclean hc).2 j (Nat.le_of_lt_succ hj)⟩,
      fun hr => Or.inl (hrunning hr)⟩
  · rw [if_neg (by omega)]
    split
    · rename_i hagain
      simp only [Bool.and_eq_true, decide_eq_true_eq] at hagain
      exact ⟨⟨hpasses, hagain.2, by decide, fun _ j hj => absurd hj (Nat.not_lt_zero j)⟩,
        fun _ => Or.inr rfl⟩
    · rename_i hover
      cases called with
      | true =>
        left
        simp only [Bool.true_and, decide_eq_true_eq] at hover
        omega
      | false =>
        refine Or.inr ⟨(hclean rfl).1, fun j => ?_⟩
        by_cases hj : j ≤ i
        · exact (hclean rfl).2 j hj
        · exact hbeyond j (by omega)

theorem Seen.latest_eq {destructor : Option Destructor} {stamp : Nat} {x : Value}
    (h : Seen t s i destructor stamp) (hs : Slots t s) (hr : RecentlyStored s.keys t i)
    (hx : s.keys.values t i = some x) (hstamp : s.keys.generations t i = stamp) :
    s.keys.latest t i = s.seen := by
  have hpos : 0 < s.keys.latest t i := by
    rw [Nat.pos_iff_ne_zero]
    intro hzero
    rw [hs.never i hzero] at hx
    cases hx
  have hrecent := hr.resolve_left (Nat.pos_iff_ne_zero.mp hpos)
  refine KeyService.generationOf_injective hpos h.latest (Nat.lt_of_le_of_lt h.creations hrecent) ?_
  rw [← hs.stamp, hstamp, h.stamp]

/-- An iteration that calls no destructor leaves nothing that it should have destroyed. -/
theorem Seen.clean {destructor : Option Destructor} {stamp : Nat} (h : Seen t s i destructor stamp)
    (hs : Slots t s)
    (hnot : ∀ d x, destructor = some d → s.keys.values t i = some x → s.keys.generations t i ≠ stamp) :
    Clean t s i := by
  intro hallocated hdestructor hlatest
  have hseen : s.keys.creations i = s.seen := Nat.le_antisymm (hlatest ▸ h.latest) h.creations
  rw [h.same hseen hallocated] at hdestructor
  obtain ⟨d, hd⟩ := Option.ne_none_iff_exists'.mp hdestructor
  by_contra hvalue
  obtain ⟨x, hx⟩ := Option.ne_none_iff_exists'.mp hvalue
  refine hnot d x hd hx ?_
  rw [hs.stamp, hlatest, hseen, h.stamp]

theorem Slots.clean_beyond (hs : Slots t s) (hi : runtimeThreadKeyCount ≤ i) : Clean t s i := by
  intro hallocated
  rw [(hs.beyond i hi).1] at hallocated
  cases hallocated

theorem Good.move (h : Good t s) (hs' : s' = { s with
      keys := { s.keys with scan := s'.keys.scan }
      running := s'.running
      seen := s'.seen
      passes := s'.passes
      halves := s'.halves }) : Slots t s' ∧ Stored t s' := by
  obtain ⟨hs, hstored, -, -⟩ := h
  rw [hs']
  refine ⟨⟨hs.generation, hs.destructor, hs.beyond, hs.stamp, hs.latest, hs.never⟩, hstored.held,
    hstored.home, hstored.fresh, fun call hcall => ?_, hstored.made, hstored.once⟩
  obtain ⟨hdestructor, hstore, hcleared⟩ := hstored.delivers call hcall
  exact ⟨hdestructor, hstore, hcleared⟩

theorem Stored.call (h : Stored t s) {d : Destructor} {x : Value} {place : Scan}
    (hx : s.keys.values t i = some x) (hd : s.destructors ⟨i, s.seen⟩ = some d)
    (hlatest : s.keys.latest t i = s.seen) (hmade : s.seen ≤ s.keys.creations i)
    (hs' : s' = { s with
      keys := { s.keys with
        scan := Function.update s.keys.scan t place
        values := update₂ s.keys.values t i none }
      halves := s'.halves
      passes := s'.passes
      running := true
      held := Function.update s.held i none
      calls := s.calls ++ [⟨d, ⟨i, s.seen⟩, x, s.held i, none⟩] }) : Stored t s' := by
  obtain ⟨n, hn, hstored⟩ := h.held i x hx
  rw [hlatest] at hstored
  rw [hs']
  constructor
  · intro j y hy
    by_cases hj : j = i
    · subst hj
      simp only [KeyService.update₂_self] at hy
      cases hy
    · simp only [KeyService.update₂_other _ _ (Or.inr hj)] at hy
      simpa only [Function.update_of_ne hj] using h.held j y hy
  · intro j m hm
    by_cases hj : j = i
    · subst hj
      simp at hm
    · simp only [Function.update_of_ne hj] at hm
      exact h.home j m hm
  · intro j m hm
    by_cases hj : j = i
    · subst hj
      simp at hm
    · simp only [Function.update_of_ne hj] at hm
      simp only [List.map_append, List.mem_append, not_or]
      refine ⟨h.fresh j m hm, fun hmem => hj ?_⟩
      -- a store is in the slot of its own creation only
      have heq : s.held i = some m := by simpa [eq_comm] using hmem
      obtain ⟨c, y, hget, rfl⟩ := h.home j m hm
      obtain ⟨c', y', hget', rfl⟩ := h.home i m heq
      rw [hget] at hget'
      cases hget'
      rfl
  · intro call hcall
    rcases List.mem_append.mp hcall with hcall | hcall
    · exact ⟨(h.delivers call hcall).destructor, (h.delivers call hcall).store,
        (h.delivers call hcall).cleared⟩
    · rw [List.mem_singleton.mp hcall]
      exact ⟨hd, ⟨n, hn, hstored⟩, rfl⟩
  · intro call hcall
    rcases List.mem_append.mp hcall with hcall | hcall
    · exact h.made call hcall
    · rw [List.mem_singleton.mp hcall]
      exact hmade
  · simp only [List.map_append, List.map_cons, List.map_nil]
    refine List.nodup_append.mpr ⟨h.once, List.pairwise_singleton .., fun a ha b hb => ?_⟩
    rw [List.mem_singleton.mp hb, hn]
    rintro rfl
    exact h.fresh i n hn ha

theorem good_scan (h : Good t s) (hrunning : s.running = false) (hover : s.keys.scan t ≠ .finished)
    (hr : ∀ pass i invoked destructor stamp, s.keys.scan t = .fetched pass i invoked destructor stamp →
      RecentlyStored s.keys t i) : Good t (scan t s) := by
  obtain ⟨hs, hstored, hspot, hbounded⟩ := id h
  cases hp : s.keys.scan t with
  | idle =>
    rw [hp] at hspot hbounded
    obtain ⟨hslots, hvalues⟩ : Slots t (scan t s) ∧ Stored t (scan t s) := h.move (by rw [scan_idle hp])
    rw [scan_idle hp] at hslots hvalues ⊢
    refine ⟨hslots, hvalues, ?_, ?_⟩ <;> simp only [Function.update_self]
    · exact ⟨⟨hspot.1, by decide, by decide, fun _ j hj => absurd hj (Nat.not_lt_zero j)⟩,
        fun _ => Or.inr rfl⟩
    · simp only [left, maximumHalves, destructorIterations, runtimeThreadKeyCount] at hbounded ⊢
      omega
  | fetch pass i invoked =>
    rw [hp] at hspot hbounded
    obtain ⟨hpassing, -⟩ := hspot
    obtain ⟨hslots, hvalues⟩ : Slots t (scan t s) ∧ Stored t (scan t s) := h.move (by rw [scan_fetch hp])
    rw [scan_fetch hp] at hslots hvalues ⊢
    refine ⟨hslots, hvalues, ?_, ?_⟩ <;> simp only [Function.update_self]
    · refine ⟨⟨hpassing.passes, hpassing.pass, hpassing.index, hpassing.clean⟩, hrunning,
        ⟨hs.generation i, hs.latest i, Nat.le_refl _, fun d hd => ?_, fun _ hallocated => ?_⟩⟩
      · split at hd
        · rename_i hallocated
          rw [← hs.destructor i hallocated]
          exact hd
        · cases hd
      · exact (if_pos hallocated).symm
    · have hpass := hpassing.pass
      have hi := hpassing.index
      simp only [left, maximumHalves, destructorIterations, runtimeThreadKeyCount] at hbounded hpass hi ⊢
      omega
  | fetched pass i invoked destructor stamp =>
    rw [hp] at hspot hbounded
    obtain ⟨hpassing, -, hseen⟩ := hspot
    have hleft (called : Bool) : s.halves + 1 + left (.next pass i called) ≤ maximumHalves := by
      have hnext : left (.next pass i called) + 1 ≤ left (.fetched pass i invoked destructor stamp) :=
        left_next hpassing.pass hpassing.index
      omega
    rcases scan_fetched hp with ⟨d, x, hd, hx, hstamp, hnew⟩ | ⟨hnot, hnew⟩
    · have hlatest := hseen.latest_eq hs (hr _ _ _ _ _ hp) hx hstamp
      have hvalues : Stored t (scan t s) :=
        hstored.call hx (hseen.read d hd) hlatest hseen.creations (by rw [hnew])
      have hslots : Slots t (scan t s) := by
        rw [hnew]
        refine ⟨hs.generation, hs.destructor, hs.beyond, hs.stamp, hs.latest, fun j hj => ?_⟩
        by_cases heq : j = i
        · subst heq
          simp only [KeyService.update₂_self]
        · simp only [KeyService.update₂_other _ _ (Or.inr heq)]
          exact hs.never j hj
      refine ⟨hslots, hvalues, ?_, ?_⟩
      · have hplace : (scan t s).keys.scan t = .next pass i true := by simp [hnew]
        rw [hplace]
        exact hpassing.next (by rw [hnew]) (fun hc => nomatch hc) fun j hj => hslots.clean_beyond hj
      · simp only [hnew, Function.update_self]
        exact hleft true
    · obtain ⟨hslots, hvalues⟩ : Slots t (scan t s) ∧ Stored t (scan t s) := h.move (by rw [hnew])
      refine ⟨hslots, hvalues, ?_, ?_⟩
      · have hplace : (scan t s).keys.scan t = .next pass i invoked := by simp [hnew]
        have hsame {j : Nat} (hj : Clean t s j) : Clean t (scan t s) j := by
          rw [hnew]
          exact hj
        rw [hplace]
        refine hpassing.next (by rw [hnew]) (fun hinvoked => ⟨by rw [hnew]; exact hrunning, fun j hj => ?_⟩)
          fun j hj => hslots.clean_beyond hj
        rcases Nat.lt_or_eq_of_le hj with hlt | rfl
        · exact hsame (hpassing.clean hinvoked j hlt)
        · exact hsame (hseen.clean hs hnot)
      · simp only [hnew, Function.update_self]
        exact hleft invoked
  | finished => exact absurd hp hover

theorem good_returns (h : Good t s) : Good t { s with running := false } := by
  obtain ⟨hslots, hvalues⟩ : Slots t { s with running := false } ∧ Stored t { s with running := false } :=
    h.move rfl
  refine ⟨hslots, hvalues, ?_, h.bounded⟩
  have hspot := h.spot
  cases hp : s.keys.scan t with
  | idle =>
    rw [hp] at hspot
    exact ⟨hspot.1, rfl⟩
  | fetch pass i invoked =>
    rw [hp] at hspot
    exact ⟨⟨hspot.1.passes, hspot.1.pass, hspot.1.index, hspot.1.clean⟩, fun hr => nomatch hr⟩
  | fetched pass i invoked destructor stamp =>
    rw [hp] at hspot
    obtain ⟨hpassing, -, hseen⟩ := hspot
    exact ⟨⟨hpassing.passes, hpassing.pass, hpassing.index, hpassing.clean⟩, rfl,
      ⟨hseen.stamp, hseen.latest, hseen.creations, hseen.read, hseen.same⟩⟩
  | finished =>
    rw [hp] at hspot
    exact hspot.imp id fun hc => ⟨rfl, hc.2⟩

end

theorem good_step {s s' : Exit} {a : Action} (h : Good t s) (hr : UsesRecent t s a)
    (hs : step t s a = some s') : Good t s' := by
  cases a with
  | create destructor =>
    cases hs
    exact good_create h destructor
  | delete c =>
    cases hs
    exact good_delete h c
  | store c v =>
    simp only [step] at hs
    split at hs
    · rename_i huser
      cases hs
      exact good_store h hr huser v
    · cases hs
  | scan =>
    simp only [step] at hs
    split at hs
    · cases hs
    · rename_i hmay
      cases hs
      simp only [Bool.or_eq_true, decide_eq_true_eq, not_or, Bool.not_eq_true] at hmay
      refine good_scan h hmay.1 hmay.2 fun pass i invoked destructor stamp hp => ?_
      simpa only [UsesRecent, hp] using hr
  | returns =>
    simp only [step] at hs
    split at hs
    · cases hs
      exact good_returns h
    · cases hs

theorem Good.destroyed {s : Exit} (h : Good t s) : Destroyed t s where
  delivers := h.stored.delivers
  once := h.stored.once
  bounded := Nat.le_trans (Nat.le_add_right _ _) h.bounded
  proceeds := fun hrunning hover => ⟨scan t s, by simp [step, hrunning, hover]⟩
  finished := fun hover _ => by
    have hspot := h.spot
    rw [hover] at hspot
    exact hspot.imp_right And.right

theorem destructors_end {s : Exit} (h : Runs.Reached (step t) (UsesRecent t) start s) :
    Destroyed t s :=
  (h.invariant (good_start t) fun _ _ _ => good_step t).destroyed

end

instance (t : ThreadId) (s : Exit) : (a : Action) → Decidable (UsesRecent t s a)
  | .create _ => isTrue trivial
  | .delete c | .store c _ => inferInstanceAs (Decidable (Recent s.keys c))
  | .scan =>
    match h : s.keys.scan t with
    | .fetched _ i _ _ _ =>
      decidable_of_iff (RecentlyStored s.keys t i) (by simp only [UsesRecent, h])
    | .idle | .fetch .. | .finished => isTrue (by simp only [UsesRecent, h])
  | .returns => isTrue trivial

/-- The destructor stores another value under its key, and gets it in the second pass. -/
def storesAgain : List Action :=
  [.create (some 5), .store ⟨0, 1⟩ (some 7), .scan, .scan, .scan, .store ⟨0, 1⟩ (some 8), .returns] ++
    List.replicate 32 .scan ++ .returns :: List.replicate 62 .scan

theorem destructors_end_storesAgain : ∃ s, Runs.perform (step 0) start storesAgain = some s ∧
    s.keys.scan 0 = .finished ∧ s.calls.map (fun call => call.value) = [7, 8] ∧ s.passes = 3 ∧
    Destroyed 0 s := by
  have hsome : (Runs.perform (step 0) start storesAgain).map (fun s =>
      (s.keys.scan 0, s.calls.map fun call => call.value, s.passes)) = some (.finished, [7, 8], 3) := by
    decide +kernel
  obtain ⟨s, hs, hend⟩ := Option.map_eq_some_iff.mp hsome
  have hrecent : Runs.Performs (step 0) (UsesRecent 0) start storesAgain := by decide +kernel
  simp only [Prod.mk.injEq] at hend
  exact ⟨s, hs, hend.1, hend.2.1, hend.2.2, destructors_end 0 (Runs.reached_of_perform hs hrecent)⟩

end SimPLCity.KeyDestructors
