import SimPLCity.ThreadStorage
import SimPLCity.Runs
import Mathlib.Data.List.Perm.Basic
import Mathlib.Algebra.Order.Group.Nat

/-! The blocks of thread-local variables on the STM32: one for each thread, from the heap, and the
linker's image for the startup and the application thread. Addresses have 32 bits. -/

namespace SimPLCity.TlsBlocks
open EmulatedTls (alignUp)
open ThreadStorage (alignUp_bounds)

abbrev ThreadId := Nat

/-- As the linker script lays them out; `tdata` are the bytes at `__tdata_source`. -/
structure Linker where
  tdata : List UInt8
  tlsBase : Nat
  tlsSize : Nat
  tlsAlign : Nat
  tcbOffset : Nat
  source : tdata.length ≤ tlsSize
  inside : tlsBase + tlsSize ≤ 2 ^ 32
  align : ∃ k, tlsAlign = 2 ^ k
  tcb : tcbOffset = max 8 tlsAlign

/-- The thread-local variables as a thread finds them. -/
def Linker.image (l : Linker) (i : Nat) : UInt8 := l.tdata.getD i 0

def Linker.allocationSize (l : Linker) : Nat := l.tcbOffset + l.tlsSize + l.tlsAlign - 1

/-- The linker script does not bound the image or its alignment. -/
def Linker.Small (l : Linker) : Prop := l.allocationSize < 2 ^ 32

instance (l : Linker) : Decidable l.Small := inferInstanceAs (Decidable (_ < _))

/-- What `runtime_tls_read_thread_pointer` returns without a thread. -/
def Linker.startupPointer (l : Linker) : Nat := (l.tlsBase + 2 ^ 32 - l.tcbOffset) % 2 ^ 32

def tlsData (l : Linker) (pointer : Nat) : Nat := (pointer + l.tcbOffset) % 2 ^ 32

/-- The two fields of a `TX_THREAD`. -/
structure Fields where
  allocation : Option Nat := none
  block : Option Nat := none
deriving DecidableEq, Repr

/-- `heap` are the addresses of the allocations for threads. -/
structure Tls where
  memory : Nat → UInt8
  heap : List Nat := []
  thread : ThreadId → Fields := fun _ => {}
  current : Option ThreadId := none

/-- No result where `tls_failure` stops the program. -/
def Tls.readThreadPointer (l : Linker) (s : Tls) : Option Nat :=
  match s.current with
  | some t => (s.thread t).block
  | none => some l.startupPointer

def initializeTlsData (l : Linker) (memory : Nat → UInt8) (destination : Nat) : Option (Nat → UInt8) :=
  if l.tdata.length > l.tlsSize then none
  else some fun a =>
    if destination ≤ a ∧ a < destination + l.tdata.length then l.tdata.getD (a - destination) 0
    else if destination ≤ a ∧ a < destination + l.tlsSize then 0
    else memory a

/-- `allocation` is what `malloc` returns. -/
def Tls.threadCreate (l : Linker) (s : Tls) (t : ThreadId) (allocation : Option Nat) : Option Tls :=
  if l.tlsAlign = 0 ∨ l.tlsAlign &&& (l.tlsAlign - 1) ≠ 0 ∨ l.tcbOffset < l.tlsAlign ∨
      l.tlsSize > 2 ^ 32 - 1 - l.tcbOffset - (l.tlsAlign - 1) then none
  else
    match allocation with
    | none => none
    | some address =>
      let pointer := alignUp address l.tlsAlign
      (initializeTlsData l s.memory (tlsData l pointer)).map fun memory =>
        { s with
          memory := memory
          heap := address :: s.heap
          thread := Function.update s.thread t ⟨some address, some pointer⟩ }

/-- Freeing what is not allocated has no result. -/
def free (heap : List Nat) : Option Nat → Option (List Nat)
  | none => some heap
  | some address => if address ∈ heap then some (heap.erase address) else none

def Tls.adoptStartup (l : Linker) (s : Tls) (t : ThreadId) : Option Tls :=
  if (s.thread t).block = none then none
  else (free s.heap (s.thread t).allocation).map fun heap =>
    { s with heap := heap, thread := Function.update s.thread t ⟨none, some l.startupPointer⟩ }

def Tls.threadDelete (s : Tls) (t : ThreadId) : Option Tls :=
  (free s.heap (s.thread t).allocation).map fun heap =>
    { s with heap := heap, thread := Function.update s.thread t {} }

/-- The address of a byte of the thread-local variables, as compiled code finds it. -/
def byteAddress (l : Linker) (pointer i : Nat) : Nat := (tlsData l pointer + i) % 2 ^ 32

def Tls.load (l : Linker) (s : Tls) (i : Nat) : Option UInt8 :=
  (s.readThreadPointer l).map fun pointer => s.memory (byteAddress l pointer i)

/-- `store` is to a thread-local variable, `write` by anybody to another object. -/
inductive Action
  | create (t : ThreadId) (allocation : Option Nat)
  | adopt (t : ThreadId)
  | delete (t : ThreadId)
  | switch (t : Option ThreadId)
  | store (i : Nat) (b : UInt8)
  | write (a : Nat) (b : UInt8)
deriving DecidableEq, Repr

def step (l : Linker) (s : Tls) : Action → Option Tls
  | .create t allocation => s.threadCreate l t allocation
  | .adopt t => s.adoptStartup l t
  | .delete t => s.threadDelete t
  | .switch t => some { s with current := t }
  | .store i b => (s.readThreadPointer l).map fun pointer =>
    { s with memory := Function.update s.memory (byteAddress l pointer i) b }
  | .write a b => some { s with memory := Function.update s.memory a b }

/-- The startup code has laid out the image. -/
def initial (l : Linker) (memory : Nat → UInt8) : Tls where
  memory := fun a => if l.tlsBase ≤ a ∧ a < l.tlsBase + l.tlsSize then l.image (a - l.tlsBase) else memory a

/-- Two allocations have no byte in common. -/
def Apart (l : Linker) (a b : Nat) : Prop := a + l.allocationSize ≤ b ∨ b + l.allocationSize ≤ a

instance (l : Linker) (a b : Nat) : Decidable (Apart l a b) := inferInstanceAs (Decidable (_ ∨ _))

instance (l : Linker) : Std.Symm (Apart l) := ⟨fun _ _ h => h.symm⟩

/-- An allocation in the address space and outside the image. -/
def Outside (l : Linker) (a : Nat) : Prop :=
  a + l.allocationSize ≤ 2 ^ 32 ∧ (a + l.allocationSize ≤ l.tlsBase ∨ l.tlsBase + l.tlsSize ≤ a)

instance (l : Linker) (a : Nat) : Decidable (Outside l a) := inferInstanceAs (Decidable (_ ∧ (_ ∨ _)))

/-- What `malloc`, ThreadX and the program do: allocations overlap nothing, one thread adopts the
startup before any runs, the current thread is not deleted, and other objects are elsewhere. -/
def Allowed (l : Linker) (s : Tls) : Action → Prop
  | .create t allocation => s.thread t = {} ∧ ∀ a ∈ allocation, Outside l a ∧ ∀ b ∈ s.heap, Apart l a b
  | .adopt t => s.current = none ∧ (s.thread t).block ≠ none ∧ ∀ u, (s.thread u).block ≠ none →
    (s.thread u).allocation ≠ none
  | .delete t => s.current ≠ some t
  | .switch t => ∀ u ∈ t, (s.thread u).block ≠ none
  | .store i _ => i < l.tlsSize
  | .write a _ => ¬ (l.tlsBase ≤ a ∧ a < l.tlsBase + l.tlsSize) ∧
    ∀ b ∈ s.heap, ¬ (b ≤ a ∧ a < b + l.allocationSize)

/-- Whose variables they are. -/
inductive Place
  | startup
  | own (t : ThreadId)
deriving DecidableEq, Repr

/-- Every thread has its own variables, and the one that has adopted the startup goes on with those. -/
structure Private where
  vars : Place → Nat → UInt8
  place : ThreadId → Option Place := fun _ => none
  current : Option ThreadId := none

def Private.here (p : Private) : Option Place :=
  match p.current with
  | some t => p.place t
  | none => some .startup

def Private.load (p : Private) (i : Nat) : Option UInt8 := p.here.map fun place => p.vars place i

def privateStep (l : Linker) (p : Private) : Action → Option Private
  | .create _ none => none
  | .create t (some _) => some { p with
      vars := Function.update p.vars (.own t) l.image
      place := Function.update p.place t (some (.own t)) }
  | .adopt t => some { p with place := Function.update p.place t (some .startup) }
  | .delete t => some { p with place := Function.update p.place t none }
  | .switch t => some { p with current := t }
  | .store i b => p.here.map fun place =>
    { p with vars := Function.update p.vars place (Function.update (p.vars place) i b) }
  | .write _ _ => some p

def privateInitial (l : Linker) : Private := ⟨fun _ => l.image, fun _ => none, none⟩

section
variable {l : Linker} {a i : Nat}

theorem align_pos (l : Linker) : 0 < l.tlsAlign := by
  obtain ⟨k, hk⟩ := l.align
  rw [hk]
  exact Nat.two_pow_pos k

theorem align_le_tcb (l : Linker) : l.tlsAlign ≤ l.tcbOffset := l.tcb ▸ Nat.le_max_right ..

theorem tcb_le (h : l.Small) : l.tcbOffset < 2 ^ 32 := by
  have hpos := align_pos l
  unfold Linker.Small Linker.allocationSize at h
  omega

theorem align_dvd_tcb (l : Linker) : l.tlsAlign ∣ l.tcbOffset := by
  obtain ⟨k, hk⟩ := l.align
  rw [l.tcb, hk]
  rcases Nat.le_total 8 (2 ^ k) with hle | hle
  · exact (Nat.max_eq_right hle).symm ▸ Nat.dvd_refl _
  · have hk : k ≤ 3 := (Nat.pow_le_pow_iff_right (a := 2) (by decide)).mp hle
    rw [Nat.max_eq_left hle]
    exact Nat.pow_dvd_pow 2 hk

theorem checks_pass (h : l.Small) : ¬ (l.tlsAlign = 0 ∨ l.tlsAlign &&& (l.tlsAlign - 1) ≠ 0 ∨
    l.tcbOffset < l.tlsAlign ∨ l.tlsSize > 2 ^ 32 - 1 - l.tcbOffset - (l.tlsAlign - 1)) := by
  have hpos := align_pos l
  have hle := align_le_tcb l
  have hpower : l.tlsAlign &&& (l.tlsAlign - 1) = 0 := by
    obtain ⟨k, hk⟩ := l.align
    rw [hk]
    simp [Nat.and_two_pow_sub_one_eq_mod]
  unfold Linker.Small Linker.allocationSize at h
  omega

theorem byteAddress_startup (h : l.Small) (hi : i < l.tlsSize) : byteAddress l l.startupPointer i = l.tlsBase + i := by
  have hinside := l.inside
  have htcb := tcb_le h
  unfold byteAddress tlsData Linker.startupPointer
  omega

/-- Where the thread-local variables of an allocation begin. -/
def origin (l : Linker) (a : Nat) : Nat := alignUp a l.tlsAlign + l.tcbOffset

theorem origin_bounds (l : Linker) (a : Nat) :
    a ≤ origin l a ∧ origin l a + l.tlsSize ≤ a + l.allocationSize := by
  obtain ⟨hlow, hhigh⟩ := alignUp_bounds a (align_pos l)
  unfold origin Linker.allocationSize
  omega

theorem origin_aligned (l : Linker) (a : Nat) : l.tlsAlign ∣ origin l a :=
  Nat.dvd_add (Nat.dvd_mul_left ..) (align_dvd_tcb l)

theorem byteAddress_own (ha : a + l.allocationSize ≤ 2 ^ 32) (hi : i < l.tlsSize) :
    byteAddress l (alignUp a l.tlsAlign) i = origin l a + i := by
  have hbounds := origin_bounds l a
  unfold byteAddress tlsData origin at *
  omega

theorem tlsData_own (ha : a + l.allocationSize ≤ 2 ^ 32) (hsize : 0 < l.tlsSize) :
    tlsData l (alignUp a l.tlsAlign) = origin l a := by
  have hbounds := origin_bounds l a
  unfold tlsData origin at *
  omega

end

/-- The fields of a thread, by whose variables it uses. -/
def Matches (l : Linker) (heap : List Nat) (t : ThreadId) (fields : Fields) : Option Place → Prop
  | none => fields = {}
  | some .startup => fields = ⟨none, some l.startupPointer⟩
  | some (.own u) => u = t ∧ ∃ a ∈ heap, fields = ⟨some a, some (alignUp a l.tlsAlign)⟩

theorem Matches.heap {l : Linker} {heap heap' : List Nat} {t : ThreadId} {fields : Fields} {place : Option Place}
    (h : Matches l heap t fields place)
    (hmem : ∀ a ∈ heap, fields.allocation = some a → a ∈ heap') : Matches l heap' t fields place := by
  match place with
  | none => exact h
  | some .startup => exact h
  | some (.own u) =>
    obtain ⟨heq, a, ha, rfl⟩ := h
    exact ⟨heq, a, hmem a ha rfl, rfl⟩

structure Simulates (l : Linker) (s : Tls) (p : Private) : Prop where
  current : s.current = p.current
  running : ∀ t, p.current = some t → p.place t ≠ none
  threads : ∀ t, Matches l s.heap t (s.thread t) (p.place t)
  apart : s.heap.Pairwise (Apart l)
  outside : ∀ a ∈ s.heap, Outside l a
  owner : ∀ a ∈ s.heap, ∃ t, (s.thread t).allocation = some a
  unique : ∀ t u a, (s.thread t).allocation = some a → (s.thread u).allocation = some a → t = u
  adopted : ∀ t u, p.place t = some .startup → p.place u = some .startup → t = u
  startup : ∀ i < l.tlsSize, s.memory (l.tlsBase + i) = p.vars .startup i
  own : ∀ t a, (s.thread t).allocation = some a →
    ∀ i < l.tlsSize, s.memory (origin l a + i) = p.vars (.own t) i

section
variable {l : Linker} {s s' : Tls} {p : Private} {t : ThreadId} {a : Nat}

theorem simulates_initial (l : Linker) (memory : Nat → UInt8) :
    Simulates l (initial l memory) (privateInitial l) where
  current := rfl
  running := nofun
  threads := fun _ => rfl
  apart := List.Pairwise.nil
  outside := nofun
  owner := nofun
  unique := nofun
  adopted := nofun
  startup := fun i hi => by
    have hin : l.tlsBase ≤ l.tlsBase + i ∧ l.tlsBase + i < l.tlsBase + l.tlsSize := by omega
    simp only [initial, if_pos hin, Nat.add_sub_cancel_left]
    rfl
  own := nofun

theorem Simulates.mem_heap (h : Simulates l s p) (ha : (s.thread t).allocation = some a) :
    a ∈ s.heap ∧ s.thread t = ⟨some a, some (alignUp a l.tlsAlign)⟩ ∧ p.place t = some (.own t) := by
  have hmatch := h.threads t
  generalize p.place t = place at hmatch
  match place with
  | none =>
    rw [show s.thread t = {} from hmatch] at ha
    cases ha
  | some .startup =>
    rw [show s.thread t = _ from hmatch] at ha
    cases ha
  | some (.own u) =>
    obtain ⟨rfl, b, hb, hthread⟩ := hmatch
    rw [hthread] at ha
    obtain rfl := Option.some.inj ha
    exact ⟨hb, hthread, rfl⟩

theorem Simulates.heap_apart (h : Simulates l s p) {b : Nat} (ha : a ∈ s.heap) (hb : b ∈ s.heap)
    (hne : a ≠ b) : Apart l a b :=
  h.apart.forall ha hb hne

theorem Simulates.pointer (h : Simulates l s p) :
    (p.here = some .startup ∧ s.readThreadPointer l = some l.startupPointer) ∨
      ∃ t a, (s.thread t).allocation = some a ∧ p.here = some (.own t) ∧
        s.readThreadPointer l = some (alignUp a l.tlsAlign) := by
  unfold Private.here Tls.readThreadPointer
  rw [h.current]
  cases hcurrent : p.current with
  | none => exact Or.inl ⟨rfl, rfl⟩
  | some t =>
    have hrunning := h.running t hcurrent
    have hmatch := h.threads t
    dsimp only
    match hplace : p.place t with
    | none => exact absurd hplace hrunning
    | some .startup =>
      rw [hplace] at hmatch
      rw [show s.thread t = _ from hmatch]
      exact Or.inl ⟨rfl, rfl⟩
    | some (.own u) =>
      rw [hplace] at hmatch
      obtain ⟨rfl, a, -, hthread⟩ := hmatch
      refine Or.inr ⟨u, a, ?_, rfl, ?_⟩ <;> rw [hthread]

theorem Simulates.load (h : Simulates l s p) (hl : l.Small) {i : Nat} (hi : i < l.tlsSize) : s.load l i = p.load i := by
  unfold Tls.load Private.load
  rcases h.pointer with ⟨hhere, hpointer⟩ | ⟨t, a, ha, hhere, hpointer⟩
  · rw [hhere, hpointer, Option.map_some, Option.map_some, byteAddress_startup hl hi, h.startup i hi]
  · have hinside := (h.outside a (h.mem_heap ha).1).1
    rw [hhere, hpointer, Option.map_some, Option.map_some, byteAddress_own hinside hi, h.own t a ha i hi]

theorem Simulates.write (h : Simulates l s p) {x : Nat} {b : UInt8}
    (hstartup : ¬ (l.tlsBase ≤ x ∧ x < l.tlsBase + l.tlsSize))
    (hheap : ∀ a ∈ s.heap, ¬ (a ≤ x ∧ x < a + l.allocationSize)) :
    Simulates l { s with memory := Function.update s.memory x b } p :=
  { h with
    startup := fun i hi => (Function.update_of_ne (by omega) ..).trans (h.startup i hi)
    own := fun t a ha i hi => by
      have hbounds := origin_bounds l a
      have hnot := hheap a (h.mem_heap ha).1
      exact (Function.update_of_ne (by omega) ..).trans (h.own t a ha i hi) }

theorem Simulates.store (h : Simulates l s p) (hl : l.Small) {i : Nat} (hi : i < l.tlsSize) (b : UInt8)
    (hs : step l s (.store i b) = some s') :
    ∃ p', privateStep l p (.store i b) = some p' ∧ Simulates l s' p' := by
  simp only [step] at hs
  rcases h.pointer with ⟨hhere, hpointer⟩ | ⟨t, a, ha, hhere, hpointer⟩
  · rw [hpointer, Option.map_some, byteAddress_startup hl hi] at hs
    cases hs
    refine ⟨_, by rw [privateStep, hhere, Option.map_some], ?_⟩
    exact { h with
      startup := fun j hj => by
        by_cases hij : j = i
        · subst hij
          simp
        · simp [hij, h.startup j hj]
      own := fun u c hc j hj => by
        obtain ⟨-, houtside⟩ := h.outside c (h.mem_heap hc).1
        have hbounds := origin_bounds l c
        have hne : origin l c + j ≠ l.tlsBase + i := by omega
        simp [Function.update_of_ne hne, h.own u c hc j hj] }
  · obtain ⟨hmem, -⟩ := h.mem_heap ha
    obtain ⟨hinside, houtside⟩ := h.outside a hmem
    have hbounds := origin_bounds l a
    rw [hpointer, Option.map_some, byteAddress_own hinside hi] at hs
    cases hs
    refine ⟨_, by rw [privateStep, hhere, Option.map_some], ?_⟩
    exact { h with
      startup := fun j hj => by
        have hne : l.tlsBase + j ≠ origin l a + i := by omega
        simp [Function.update_of_ne hne, h.startup j hj]
      own := fun u c hc j hj => by
        by_cases hu : u = t
        · subst hu
          obtain rfl := Option.some.inj (ha.symm.trans hc)
          by_cases hij : j = i
          · subst hij
            simp
          · simp [hij, h.own u a ha j hj]
        · have hca : a ≠ c := by
            rintro rfl
            exact hu (h.unique u t a hc ha)
          have hapart := h.heap_apart hmem (h.mem_heap hc).1 hca
          have hbounds' := origin_bounds l c
          unfold Apart at hapart
          have hne : origin l c + j ≠ origin l a + i := by omega
          simp [Function.update_of_ne hne, hu, h.own u c hc j hj] }

theorem initialized {memory memory' : Nat → UInt8} (ha : a + l.allocationSize ≤ 2 ^ 32)
    (h : initializeTlsData l memory (tlsData l (alignUp a l.tlsAlign)) = some memory') :
    (∀ i < l.tlsSize, memory' (origin l a + i) = l.image i) ∧
      ∀ x, ¬ (origin l a ≤ x ∧ x < origin l a + l.tlsSize) → memory' x = memory x := by
  have hsource := l.source
  unfold initializeTlsData at h
  rw [if_neg (by omega)] at h
  obtain rfl := Option.some.inj h
  refine ⟨fun i hi => ?_, fun x hx => ?_⟩
  · rw [tlsData_own ha (by omega)]
    dsimp only
    by_cases hin : i < l.tdata.length
    · rw [if_pos (by omega), Nat.add_sub_cancel_left]
      rfl
    · rw [if_neg (by omega), if_pos (by omega)]
      rw [Linker.image, List.getD_eq_getElem?_getD, List.getElem?_eq_none (by omega), Option.getD_none]
  · dsimp only
    by_cases hsize : 0 < l.tlsSize
    · rw [tlsData_own ha hsize, if_neg (by omega), if_neg hx]
    · rw [if_neg (by omega), if_neg (by omega)]

theorem Simulates.create (h : Simulates l s p) (hnew : s.thread t = {}) (hout : Outside l a)
    (hapart : ∀ b ∈ s.heap, Apart l a b) {memory : Nat → UInt8}
    (hmemory : initializeTlsData l s.memory (tlsData l (alignUp a l.tlsAlign)) = some memory) :
    Simulates l
      { s with
        memory := memory
        heap := a :: s.heap
        thread := Function.update s.thread t ⟨some a, some (alignUp a l.tlsAlign)⟩ }
      { p with
        vars := Function.update p.vars (.own t) l.image
        place := Function.update p.place t (some (.own t)) } := by
  have hpositive : 0 < l.allocationSize := by
    have hpos := align_pos l
    have hle := align_le_tcb l
    unfold Linker.allocationSize
    omega
  obtain ⟨himage, hkept⟩ := initialized hout.1 hmemory
  have hbounds := origin_bounds l a
  have hfresh : a ∉ s.heap := fun hmem => by
    have hself := hapart a hmem
    unfold Apart at hself
    omega
  have hallocated : ∀ u b, (Function.update s.thread t ⟨some a, some (alignUp a l.tlsAlign)⟩ u).allocation =
      some b → (u = t ∧ b = a) ∨ (u ≠ t ∧ (s.thread u).allocation = some b ∧ b ∈ s.heap) := by
    intro u b hb
    by_cases hu : u = t
    · subst hu
      rw [Function.update_self] at hb
      exact Or.inl ⟨rfl, (Option.some.inj hb).symm⟩
    · rw [Function.update_of_ne hu] at hb
      exact Or.inr ⟨hu, hb, (h.mem_heap hb).1⟩
  refine ⟨h.current, fun u hu => ?_, fun u => ?_, List.pairwise_cons.mpr ⟨hapart, h.apart⟩, fun b hb => ?_,
    fun b hb => ?_, fun u v b hu hv => ?_, fun u v hu hv => ?_, fun i hi => ?_, fun u b hb i hi => ?_⟩
  · by_cases hut : u = t
    · simp [hut]
    · simpa [hut] using h.running u hu
  · by_cases hut : u = t
    · subst hut
      simp only [Function.update_self]
      exact ⟨rfl, a, List.mem_cons_self, rfl⟩
    · simp only [Function.update_of_ne hut]
      exact (h.threads u).heap fun b hb _ => List.mem_cons_of_mem a hb
  · rcases List.mem_cons.mp hb with rfl | hb
    · exact hout
    · exact h.outside b hb
  · rcases List.mem_cons.mp hb with rfl | hb
    · exact ⟨t, by simp⟩
    · obtain ⟨u, hu⟩ := h.owner b hb
      have hut : u ≠ t := by
        rintro rfl
        rw [hnew] at hu
        cases hu
      exact ⟨u, by simpa [hut] using hu⟩
  · rcases hallocated u b hu with ⟨rfl, rfl⟩ | ⟨-, hu, hb⟩
    · rcases hallocated v b hv with ⟨rfl, -⟩ | ⟨-, -, hb⟩
      · rfl
      · exact absurd hb hfresh
    · rcases hallocated v b hv with ⟨-, rfl⟩ | ⟨-, hv, -⟩
      · exact absurd hb hfresh
      · exact h.unique u v b hu hv
  · have hold : ∀ w, Function.update p.place t (some (.own t)) w = some .startup → p.place w = some .startup := by
      intro w hw
      by_cases hwt : w = t
      · rw [hwt, Function.update_self] at hw
        cases hw
      · rwa [Function.update_of_ne hwt] at hw
    exact h.adopted u v (hold u hu) (hold v hv)
  · have houtside := hout.2
    have hne : Place.startup ≠ .own t := by simp
    dsimp only
    rw [Function.update_of_ne hne]
    exact (hkept _ (by omega)).trans (h.startup i hi)
  · rcases hallocated u b hb with ⟨rfl, rfl⟩ | ⟨hu, hb, hmem⟩
    · dsimp only
      rw [Function.update_self]
      exact himage i hi
    · have hab := hapart b hmem
      have hbounds' := origin_bounds l b
      unfold Apart at hab
      dsimp only
      rw [Function.update_of_ne fun heq => hu (Place.own.inj heq)]
      exact (hkept _ (by omega)).trans (h.own u b hb i hi)

theorem Simulates.free (h : Simulates l s p) {fields : Fields} {place : Option Place}
    (hfields : fields.allocation = none) (hplace : ∀ heap, Matches l heap t fields place)
    (hrunning : p.current = some t → place ≠ none)
    (hfirst : place = some .startup → ∀ u, p.place u ≠ some .startup) :
    ∃ heap, free s.heap (s.thread t).allocation = some heap ∧
      Simulates l { s with heap := heap, thread := Function.update s.thread t fields }
        { p with place := Function.update p.place t place } := by
  have hnodup : s.heap.Nodup := h.apart.imp fun hab heq => by
    have hpos := align_pos l
    have hle := align_le_tcb l
    unfold Apart Linker.allocationSize at hab
    omega
  obtain ⟨heap, hfree, hheap⟩ : ∃ heap, TlsBlocks.free s.heap (s.thread t).allocation = some heap ∧
      heap.Sublist s.heap ∧ ∀ b ∈ s.heap, b ∈ heap ↔ (s.thread t).allocation ≠ some b := by
    cases hallocation : (s.thread t).allocation with
    | none => exact ⟨s.heap, rfl, List.Sublist.refl _, fun b hb => ⟨fun _ => nofun, fun _ => hb⟩⟩
    | some a =>
      refine ⟨s.heap.erase a, if_pos (h.mem_heap hallocation).1, List.erase_sublist, fun b hb => ?_⟩
      rw [hnodup.mem_erase_iff, and_iff_left hb]
      exact ⟨fun hne heq => hne (Option.some.inj heq).symm, fun hne heq => hne (congrArg some heq.symm)⟩
  obtain ⟨hsublist, hmem⟩ := hheap
  refine ⟨heap, hfree, ?_⟩
  have hallocated : ∀ u b, (Function.update s.thread t fields u).allocation = some b →
      u ≠ t ∧ (s.thread u).allocation = some b := by
    intro u b hb
    by_cases hu : u = t
    · rw [hu, Function.update_self, hfields] at hb
      cases hb
    · rw [Function.update_of_ne hu] at hb
      exact ⟨hu, hb⟩
  refine ⟨h.current, fun u hu => ?_, fun u => ?_, h.apart.sublist hsublist,
    fun b hb => h.outside b (hsublist.subset hb), fun b hb => ?_, fun u v b hu hv => ?_,
    fun u v hu hv => ?_, h.startup,
    fun u b hb => h.own u b (hallocated u b hb).2⟩
  · by_cases hut : u = t
    · subst hut
      simpa using hrunning hu
    · simpa [hut] using h.running u hu
  · by_cases hut : u = t
    · subst hut
      simp only [Function.update_self]
      exact hplace heap
    · simp only [Function.update_of_ne hut]
      refine (h.threads u).heap fun b hb hown => (hmem b hb).mpr fun hother => hut ?_
      exact h.unique u t b hown hother
  · obtain ⟨u, hu⟩ := h.owner b (hsublist.subset hb)
    have hut : u ≠ t := by
      rintro rfl
      exact (hmem b (hsublist.subset hb)).mp hb hu
    exact ⟨u, by simpa [hut] using hu⟩
  · exact h.unique u v b (hallocated u b hu).2 (hallocated v b hv).2
  · dsimp only at hu hv
    by_cases hut : u = t
    · rw [hut, Function.update_self] at hu
      by_cases hvt : v = t
      · exact hut.trans hvt.symm
      · exact absurd (by rwa [Function.update_of_ne hvt] at hv) (hfirst hu v)
    · rw [Function.update_of_ne hut] at hu
      by_cases hvt : v = t
      · rw [hvt, Function.update_self] at hv
        exact absurd hu (hfirst hv u)
      · rw [Function.update_of_ne hvt] at hv
        exact h.adopted u v hu hv

theorem Simulates.not_adopted (h : Simulates l s p)
    (hnone : ∀ u, (s.thread u).block ≠ none → (s.thread u).allocation ≠ none) (u : ThreadId) :
    p.place u ≠ some .startup := by
  intro hplace
  have hmatch := h.threads u
  rw [hplace] at hmatch
  have hthread : s.thread u = ⟨none, some l.startupPointer⟩ := hmatch
  refine hnone u ?_ ?_
  · rw [hthread]
    nofun
  · rw [hthread]

theorem Simulates.adopt (h : Simulates l s p)
    (hnone : ∀ u, (s.thread u).block ≠ none → (s.thread u).allocation ≠ none) :
    ∃ heap, TlsBlocks.free s.heap (s.thread t).allocation = some heap ∧
      Simulates l
        { s with heap := heap, thread := Function.update s.thread t ⟨none, some l.startupPointer⟩ }
        { p with place := Function.update p.place t (some .startup) } :=
  h.free rfl (fun _ => rfl) (fun _ => nofun) fun _ => h.not_adopted hnone

theorem Simulates.delete (h : Simulates l s p) (hcurrent : s.current ≠ some t) :
    ∃ heap, TlsBlocks.free s.heap (s.thread t).allocation = some heap ∧
      Simulates l { s with heap := heap, thread := Function.update s.thread t {} }
        { p with place := Function.update p.place t none } :=
  h.free rfl (fun _ => rfl) (fun hrun => absurd (h.current.trans hrun) hcurrent) nofun

theorem simulates_step (h : Simulates l s p) (hl : l.Small) {action : Action} (hallowed : Allowed l s action)
    (hs : step l s action = some s') :
    ∃ p', privateStep l p action = some p' ∧ Simulates l s' p' := by
  cases action with
  | create t allocation =>
    obtain ⟨hnew, hmalloc⟩ := hallowed
    simp only [step, Tls.threadCreate] at hs
    rw [if_neg (checks_pass hl)] at hs
    cases allocation with
    | none => cases hs
    | some a =>
      obtain ⟨memory, hmemory, rfl⟩ := Option.map_eq_some_iff.mp hs
      obtain ⟨hout, hapart⟩ := hmalloc a rfl
      exact ⟨_, rfl, h.create hnew hout hapart hmemory⟩
  | adopt t =>
    obtain ⟨-, hblock, hnone⟩ := hallowed
    obtain ⟨heap, hfree, hsim⟩ := h.adopt (t := t) hnone
    simp only [step, Tls.adoptStartup, hblock, if_false, hfree, Option.map_some] at hs
    cases hs
    exact ⟨_, rfl, hsim⟩
  | delete t =>
    obtain ⟨heap, hfree, hsim⟩ := h.delete (t := t) hallowed
    simp only [step, Tls.threadDelete, hfree, Option.map_some] at hs
    cases hs
    exact ⟨_, rfl, hsim⟩
  | «switch» t =>
    cases hs
    refine ⟨_, rfl, { h with current := rfl, running := fun u hu hplace => ?_ }⟩
    have hmatch := h.threads u
    dsimp only at hplace
    rw [hplace] at hmatch
    exact hallowed u hu (congrArg Fields.block hmatch)
  | store i b => exact h.store hl hallowed b hs
  | write a b =>
    cases hs
    exact ⟨p, rfl, h.write hallowed.1 hallowed.2⟩

/-- Only an allocation that fails stops the program. -/
theorem step_possible (h : Simulates l s p) (hl : l.Small) {action : Action} (hallowed : Allowed l s action)
    (hmalloc : ∀ t, action ≠ .create t none) : (step l s action).isSome = true := by
  cases action with
  | create t allocation =>
    simp only [step, Tls.threadCreate]
    rw [if_neg (checks_pass hl)]
    cases allocation with
    | none => exact absurd rfl (hmalloc t)
    | some a =>
      dsimp only
      rw [initializeTlsData, if_neg (Nat.not_lt.mpr l.source)]
      rfl
  | adopt t =>
    obtain ⟨-, hblock, hnone⟩ := hallowed
    obtain ⟨heap, hfree, -⟩ := h.adopt (t := t) hnone
    simp only [step, Tls.adoptStartup, hblock, if_false, hfree]
    rfl
  | delete t =>
    obtain ⟨heap, hfree, -⟩ := h.delete (t := t) hallowed
    simp only [step, Tls.threadDelete, hfree]
    rfl
  | «switch» t => rfl
  | store i b =>
    simp only [step]
    rcases h.pointer with ⟨-, hpointer⟩ | ⟨t, a, -, -, hpointer⟩
    · rw [hpointer]
      rfl
    · rw [hpointer]
      rfl
  | write a b => rfl

theorem simulates_run (hl : l.Small) {actions : List Action} (h : Simulates l s p)
    (hs : Runs.perform (step l) s actions = some s') (hallowed : Runs.Performs (step l) (Allowed l) s actions) :
    ∃ p', Runs.perform (privateStep l) p actions = some p' ∧ Simulates l s' p' := by
  induction actions generalizing s p with
  | nil =>
    cases hs
    exact ⟨p, rfl, h⟩
  | cons action actions ih =>
    obtain ⟨s₁, hfirst, hrest⟩ := Option.bind_eq_some_iff.mp hs
    obtain ⟨p₁, hprivate, hsim⟩ := simulates_step h hl hallowed.1 hfirst
    obtain ⟨p', hrun, hsim'⟩ := ih hsim hrest (hallowed.2 s₁ hfirst)
    exact ⟨p', Option.bind_eq_some_iff.mpr ⟨p₁, hprivate, hrun⟩, hsim'⟩

end

/-- Thread-local variables are private, aligned and freed: what the running code reads, what the heap
holds, and that nothing but an allocation can fail. -/
structure Serves (l : Linker) (s : Tls) (p : Private) : Prop where
  load : ∀ i < l.tlsSize, s.load l i = p.load i
  heap : ∀ a, a ∈ s.heap ↔ ∃ t, (s.thread t).allocation = some a
  aligned : ∀ t a, (s.thread t).allocation = some a → p.place t = some (.own t) ∧
    (s.thread t).block = some (alignUp a l.tlsAlign) ∧ l.tlsAlign ∣ origin l a ∧
    a ≤ origin l a ∧ origin l a + l.tlsSize ≤ a + l.allocationSize
  distinct : ∀ t u, p.place t ≠ none → p.place t = p.place u → t = u
  possible : ∀ action, Allowed l s action → (∀ t, action ≠ .create t none) → (step l s action).isSome = true

theorem tls_private {l : Linker} (hl : l.Small) {memory : Nat → UInt8} {actions : List Action} {s : Tls}
    (hs : Runs.perform (step l) (initial l memory) actions = some s)
    (hallowed : Runs.Performs (step l) (Allowed l) (initial l memory) actions) :
    ∃ p, Runs.perform (privateStep l) (privateInitial l) actions = some p ∧ Serves l s p := by
  obtain ⟨p, hrun, h⟩ := simulates_run hl (simulates_initial l memory) hs hallowed
  refine ⟨p, hrun, fun i hi => h.load hl hi, fun a => ⟨h.owner a, fun ⟨t, ha⟩ => (h.mem_heap ha).1⟩,
    fun t a ha => ?_, fun t u hplace heq => ?_, fun action => step_possible h hl⟩
  · obtain ⟨-, hthread, hplace⟩ := h.mem_heap ha
    exact ⟨hplace, by rw [hthread], origin_aligned l a, origin_bounds l a⟩
  · have ht := h.threads t
    have hu := h.threads u
    match hx : p.place t with
    | none => exact absurd hx hplace
    | some .startup => exact h.adopted t u hx (heq ▸ hx)
    | some (.own w) =>
      rw [hx] at ht
      rw [← heq, hx] at hu
      exact ht.1.symm.trans hu.1

/-- Four initialized bytes and four that begin as zero. -/
def twoWords : Linker where
  tdata := [1, 2, 3, 4]
  tlsBase := 0x24000000
  tlsSize := 8
  tlsAlign := 4
  tcbOffset := 8
  source := by decide
  inside := by decide
  align := ⟨2, by decide⟩
  tcb := by decide

/-- The application thread adopts the startup, another thread takes its freed block, and both store. -/
def storedByBoth : List Action :=
  [.create 1 (some 0x24010002), .adopt 1, .create 2 (some 0x24010002), .switch (some 2), .store 0 9,
    .switch (some 1), .store 5 7]

theorem tls_private_storedByBoth :
    ∃ s p, Runs.perform (step twoWords) (initial twoWords fun _ => 0) storedByBoth = some s ∧
      Runs.perform (privateStep twoWords) (privateInitial twoWords) storedByBoth = some p ∧
      Serves twoWords s p ∧ s.load twoWords 0 = some 1 ∧ s.load twoWords 5 = some 7 := by
  have hallowed : Runs.Performs (step twoWords) (Allowed twoWords) (initial twoWords fun _ => 0) storedByBoth := by
    refine Runs.performs_cons ⟨rfl, ?_⟩ rfl ?_
    · intro a ha
      obtain rfl := Option.some.inj ha
      exact ⟨by decide, nofun⟩
    refine Runs.performs_cons ⟨rfl, nofun, fun u hu => ?_⟩ rfl ?_
    · by_cases hone : u = 1
      · subst hone
        nofun
      · refine absurd ?_ hu
        dsimp only
        rw [Function.update_of_ne hone]
        rfl
    refine Runs.performs_cons ⟨rfl, ?_⟩ rfl ?_
    · intro a ha
      obtain rfl := Option.some.inj ha
      exact ⟨by decide, nofun⟩
    refine Runs.performs_cons (fun u hu => ?_) rfl ?_
    · obtain rfl := Option.some.inj hu
      nofun
    refine Runs.performs_cons (show 0 < 8 by decide) rfl ?_
    refine Runs.performs_cons (fun u hu => ?_) rfl ?_
    · obtain rfl := Option.some.inj hu
      nofun
    exact Runs.performs_cons (show 5 < 8 by decide) rfl trivial
  obtain ⟨p, hrun, hserves⟩ := tls_private (show twoWords.Small by decide) rfl hallowed
  exact ⟨_, p, rfl, hrun, hserves, by decide, by decide⟩

end SimPLCity.TlsBlocks
