import SimPLCity.KeyDestructors
import SimPLCity.LinkedChain

/-! The callbacks that a thread registers for its exit. They are linked in front of one another
under a key whose destructor is `run_thread_exit_callbacks`, among the keys and destructors of the
program. A callback may register others, and may free or reuse its own element. -/

namespace SimPLCity.ExitCallbacks
open ThreadKeys LinkedChain
open KeyDestructors (Exit Seen)
open KeyService (Recent RecentlyStored)

/-- The address of an `__at_thread_exit_elt`. -/
abbrev Element := Value

/-- No destructor of the program has this address. -/
def runThreadExitCallbacks : Destructor := 0

/-- Where `run_thread_exit_callbacks` is: at an element, or in a callback with the next one kept. -/
inductive Loop
  | element (p : Option Element)
  | callback (next : Option Element)
deriving DecidableEq, Repr

/-- `exiting` is whether the callbacks run from `exit`, and `over` whether they have run from there.
For the proofs only are the number of callbacks registered, the one under which an element is
registered, the elements to be run by the next run of the loop and by this one, the callbacks that
have run, the number registered at the start of each run of the loop and at the thread's exit. -/
structure Thread where
  exit : Exit := {}
  key : Option Creation := none
  next : Element → Option Element := fun _ => none
  loop : Option Loop := none
  exiting : Bool := false
  ranThere : Bool := false
  pushed : Nat := 0
  number : Element → Nat := fun _ => 0
  pending : List Element := []
  rest : List Element := []
  ran : List Nat := []
  starts : List Nat := []
  before : Nat := 0

def start : Thread := {}

section
variable (t : ThreadId)

def getSpecific (k : Keys) (c : Creation) : Option Value :=
  match (keyGet k t c.handle).2 with
  | .value v => v
  | _ => none

/-- `run_thread_exit_callbacks` begins with this element. -/
def enter (s : Thread) (p : Option Element) : Thread :=
  { s with
    loop := some (.element p)
    rest := s.pending
    pending := []
    starts := s.starts ++ [s.pushed] }

/-- The constructor of `ThreadExitKey`, by the first thread that registers a callback. Without a key
it terminates the program. -/
def threadExitKey (s : Thread) : Option Thread :=
  match s.key, (keyCreate s.exit.keys (some runThreadExitCallbacks)).2 with
  | none, .key handle =>
    let exit := KeyDestructors.create s.exit (some runThreadExitCallbacks)
    some { s with exit, key := some ⟨keyIndex handle, exit.keys.creations (keyIndex handle)⟩ }
  | _, _ => none

/-- `__at_thread_exit` after the key is made. -/
def atThreadExit (s : Thread) (e : Element) : Option Thread :=
  match s.key with
  | none => none
  | some c =>
    if s.exit.keys.has c.handle then
      some { s with
        exit := KeyDestructors.store t s.exit c (some e)
        next := Function.update s.next e (getSpecific t s.exit.keys c)
        pushed := s.pushed + 1
        number := Function.update s.number e s.pushed
        pending := e :: s.pending }
    else none

/-- `exit` then deletes the key, so nothing is registered after the callbacks have run. -/
def runCurrentThreadExitCallbacks (s : Thread) : Option Thread :=
  match s.key with
  | none => none
  | some c =>
    some { enter s (getSpecific t s.exit.keys c) with
      exit := KeyDestructors.store t s.exit c none
      exiting := true }

/-- The next half of an iteration over the keys. -/
def scan (s : Thread) : Thread :=
  let next : Thread :=
    { s with
      exit := KeyDestructors.scan t s.exit
      before := if s.exit.keys.scan t = .idle then s.pushed else s.before }
  match (runThreadSpecificDestructors s.exit.keys t).2 with
  | .called d x => if d = runThreadExitCallbacks then enter next (some x) else next
  | _ => next

inductive Action
  | keys (a : KeyDestructors.Action)
  | threadExitKey
  | atThreadExit (e : Element)
  | overwrite (e : Element) (next : Option Element)
  | exits
  | call
  | returns
  | leave
deriving DecidableEq, Repr

/-- The thread runs code of the program: its body, a destructor, or a callback. -/
def inUserCode (s : Thread) : Bool :=
  match s.loop with
  | none => KeyDestructors.inUserCode t s.exit && !s.ranThere
  | some (.callback _) => true
  | some (.element _) => false

def step (s : Thread) : Action → Option Thread
  | .keys (.create destructor) => some { s with exit := KeyDestructors.create s.exit destructor }
  | .keys (.delete c) => some { s with exit := KeyDestructors.delete s.exit c }
  | .keys (.store c v) =>
    if inUserCode t s then some { s with exit := KeyDestructors.store t s.exit c v } else none
  | .keys .scan =>
    if s.loop = none && !s.ranThere && !s.exit.running && s.exit.keys.scan t ≠ .finished then
      some (scan t s)
    else none
  | .keys .returns =>
    if s.loop = none && !s.ranThere && s.exit.running then
      some { s with exit := { s.exit with running := false } }
    else none
  | .threadExitKey => threadExitKey s
  | .atThreadExit e => if inUserCode t s then atThreadExit t s e else none
  | .overwrite e next => some { s with next := Function.update s.next e next }
  | .exits => if s.loop = none && inUserCode t s then runCurrentThreadExitCallbacks t s else none
  | .call =>
    match s.loop with
    | some (.element (some e)) =>
      some { s with
        loop := some (.callback (s.next e))
        rest := s.rest.tail
        ran := s.ran ++ [s.number e] }
    | _ => none
  | .returns =>
    match s.loop with
    | some (.callback next) => some { s with loop := some (.element next) }
    | _ => none
  | .leave =>
    match s.loop with
    | some (.element none) =>
      if s.exiting then some { s with loop := none, ranThere := true }
      else some { s with loop := none, exit := { s.exit with running := false } }
    | _ => none

/-- The condition on a step: its handles and values are recent, the key and the destructor of the
callbacks are used by them only, and an element that is linked is neither linked again nor written. -/
def Proper (s : Thread) : Action → Prop
  | .keys a => KeyDestructors.UsesRecent t s.exit a ∧
    match a with
    | .create destructor => destructor ≠ some runThreadExitCallbacks
    | .delete c | .store c _ => s.key ≠ some c
    | _ => True
  | .atThreadExit e => e ∉ s.pending ++ s.rest ∧
    ∀ c, s.key = some c → RecentlyStored s.exit.keys t c.index
  | .overwrite e _ => e ∉ s.pending ++ s.rest
  | .exits => ∀ c, s.key = some c → RecentlyStored s.exit.keys t c.index
  | _ => True

/-- What the runs of the loop call that begin at these numbers of registrations: each one what was
registered since the one before began, the newest first. -/
def batches (n : Nat) : List Nat → List Nat
  | [] => []
  | m :: ms => (List.range' n (m - n)).reverse ++ batches m ms

structure Delivered (s : Thread) : Prop where
  order : ∃ rest, s.ran ++ rest = batches 0 s.starts ∧ (s.loop = none → rest = [])
  registered : ∀ n ∈ s.ran, n < s.pushed
  once : s.ran.Nodup
  early : s.exit.keys.scan t = .finished → s.exit.running = false →
    s.ran.filter (· < s.before) = (List.range s.before).reverse
  ended : s.exit.keys.scan t = .finished → s.exit.running = false →
    s.exit.passes = destructorIterations ∨ ∀ n < s.pushed, n ∈ s.ran

end

theorem batches_concat (n : Nat) (ms : List Nat) (m : Nat) :
    batches n (ms ++ [m]) =
      batches n ms ++ (List.range' (ms.getLastD n) (m - ms.getLastD n)).reverse := by
  induction ms generalizing n with
  | nil => simp [batches]
  | cons k ms ih =>
    rw [List.cons_append, batches, ih, batches, List.getLastD_cons, List.append_assoc]

theorem filter_range {n m : Nat} (h : n ≤ m) : (List.range m).filter (· < n) = List.range n := by
  induction h with
  | refl => exact List.filter_eq_self.mpr fun k hk => by simpa using hk
  | @step m hm ih => simp [List.range_succ, ih, Nat.not_lt.mpr hm]

section
variable (t : ThreadId)

/-- The key is the only one with this destructor, and is not deleted. -/
structure Keyed (x : Exit) (key : Option Creation) : Prop where
  serial : ∀ c, key = some c → 0 < c.serial ∧ x.keys.creations c.index = c.serial
  allocated : ∀ c, key = some c → (x.keys.keys c.index).allocated = true
  destructor : ∀ c, key = some c → x.destructors c = some runThreadExitCallbacks
  only : ∀ c, x.destructors c = some runThreadExitCallbacks → key = some c

/-- The thread's value under the key. -/
def head (x : Exit) : Option Creation → Option Element
  | none => none
  | some c => if x.keys.latest t c.index = c.serial then x.keys.values t c.index else none

/-- The number registered when the loop last began. -/
def lastStart (s : Thread) : Nat := s.starts.getLastD 0

/-- The elements that the loop is still to reach. -/
def Remaining (s : Thread) : Option Loop → Prop
  | none => s.rest = []
  | some (.element p) | some (.callback p) => Chain s.next p s.rest

structure Lists (s : Thread) : Prop where
  pending : Chain s.next (head t s.exit s.key) s.pending
  rest : Remaining s s.loop
  nodup : (s.pending ++ s.rest).Nodup
  numbers : s.pending.map s.number = (List.range' (lastStart s) (s.pushed - lastStart s)).reverse
  order : s.ran ++ s.rest.map s.number = batches 0 s.starts
  perm : (s.ran ++ s.rest.map s.number).Perm (List.range (lastStart s))
  bound : lastStart s ≤ s.pushed
  starts : ∀ m ∈ s.starts, s.before ≤ m
  before : s.before ≤ s.pushed

/-- The loop has begun after the exit, or nothing was registered before that. -/
def Started (s : Thread) : Prop := s.before = 0 ∨ s.starts ≠ []

/-- Otherwise the slot of the key is still to come in the first pass. -/
def Early (s : Thread) : Scan → Prop
  | .idle => s.before = 0
  | .fetch 0 i _ => Started s ∨ ∃ c, s.key = some c ∧ i ≤ c.index
  | .fetched 0 i _ destructor stamp => Started s ∨ ∃ c, s.key = some c ∧ i ≤ c.index ∧
      (i = c.index → destructor = some runThreadExitCallbacks ∧ stamp = generationOf c.serial)
  | _ => Started s

structure Good (s : Thread) : Prop where
  exit : KeyDestructors.Good t s.exit
  keyed : Keyed s.exit s.key
  lists : Lists t s
  running : s.loop = none ∨ s.exit.running = true ∨ s.exit.keys.scan t = .idle ∧ s.exiting = true
  idle : s.exit.keys.scan t = .idle → s.loop = none → s.ranThere = false → s.starts = []
  keyless : s.key = none → s.pushed = 0
  early : Early s (s.exit.keys.scan t)

theorem good_start : Good t start where
  exit := KeyDestructors.good_start t
  keyed := ⟨nofun, nofun, nofun, nofun⟩
  lists :=
    { pending := .nil
      rest := rfl
      nodup := List.nodup_nil
      numbers := rfl
      order := rfl
      perm := .nil
      bound := Nat.le_refl _
      starts := nofun
      before := Nat.le_refl _ }
  running := Or.inl rfl
  idle := fun _ _ _ => rfl
  keyless := fun _ => rfl
  early := rfl

end

section
variable {t : ThreadId} {s s' : Thread} {x x' : Exit} {key : Option Creation} {c : Creation}

theorem Good.exits (h : Good t s) (hx : KeyDestructors.Good t x) (hkeyed : Keyed x s.key)
    (hhead : head t x s.key = head t s.exit s.key)
    (hidle : x.keys.scan t = .idle ↔ s.exit.keys.scan t = .idle)
    (hrunning : s.exit.running = true → x.running = true) (hearly : Early s (x.keys.scan t)) :
    Good t { s with exit := x } where
  exit := hx
  keyed := hkeyed
  lists := { h.lists with
    pending := hhead ▸ h.lists.pending
    rest := h.lists.rest }
  running := h.running.imp_right (Or.imp hrunning (And.imp_left hidle.mpr))
  idle := fun hscan => h.idle (hidle.mp hscan)
  keyless := h.keyless
  early := hearly

theorem create_cases (x : Exit) (destructor : Option Destructor) :
    (KeyDestructors.create x destructor = x ∧ ∀ handle, (keyCreate x.keys destructor).2 ≠ .key handle) ∨
    ∃ i < runtimeThreadKeyCount, (x.keys.keys i).allocated = false ∧
      (keyCreate x.keys destructor).2 = .key (makeKey i (nextGeneration (x.keys.keys i).generation)) ∧
      (KeyDestructors.create x destructor).keys = { x.keys with
        keys := Function.update x.keys.keys i
          { allocated := true, destructor, generation := nextGeneration (x.keys.keys i).generation }
        creations := Function.update x.keys.creations i (x.keys.creations i + 1) } ∧
      (KeyDestructors.create x destructor).running = x.running ∧
      ∀ d, (KeyDestructors.create x destructor).destructors d =
        if d = ⟨i, x.keys.creations i + 1⟩ then destructor else x.destructors d := by
  unfold KeyDestructors.create keyCreate
  split
  · rename_i i hfind
    have hi := List.mem_range.mp (List.mem_of_find?_eq_some hfind)
    have hfree := List.find?_some hfind
    refine Or.inr ⟨i, hi, by simpa using hfree, rfl, rfl, rfl, fun d => ?_⟩
    simp only
    by_cases hd : d.index = i
    · subst hd
      obtain ⟨n, m⟩ := d
      simp only [Function.update_self, Creation.mk.injEq, true_and]
      congr 1
      simp only [eq_iff_iff]
      omega
    · rw [if_neg (by rw [Function.update_of_ne hd]; omega), if_neg fun heq => hd (by rw [heq])]
  · refine Or.inl ⟨?_, fun handle hkey => nomatch hkey⟩
    have hsame : (fun d : Creation => if x.keys.creations d.index < d.serial ∧
        d.serial = x.keys.creations d.index then destructor else x.destructors d) = x.destructors := by
      funext d
      rw [if_neg (by omega)]
    simp only [hsame]

theorem Keyed.index_ne (h : Keyed x key) {d : Creation} (hd : key = some d) (hc : key ≠ some c)
    (hserial : x.keys.creations c.index = c.serial) : d.index ≠ c.index := by
  intro heq
  have hsame := (h.serial d hd).2
  rw [heq, hserial] at hsame
  apply hc
  rw [hd]
  cases c
  cases d
  simp_all

theorem Keyed.create (h : Keyed x key) {destructor : Option Destructor}
    (hd : destructor ≠ some runThreadExitCallbacks) : Keyed (KeyDestructors.create x destructor) key := by
  rcases create_cases x destructor with ⟨hsame, -⟩ | ⟨i, -, hfree, -, hkeys, -, hdestructors⟩
  · rw [hsame]
    exact h
  · have hother : ∀ c, key = some c → c.index ≠ i := by
      rintro c hc rfl
      rw [h.allocated c hc] at hfree
      cases hfree
    refine ⟨fun c hc => ?_, fun c hc => ?_, fun c hc => ?_, fun c hc => ?_⟩
    · rw [hkeys]
      simp only [Function.update_of_ne (hother c hc)]
      exact h.serial c hc
    · rw [hkeys]
      simp only [Function.update_of_ne (hother c hc)]
      exact h.allocated c hc
    · rw [hdestructors, if_neg fun heq => hother c hc (by rw [heq])]
      exact h.destructor c hc
    · rw [hdestructors] at hc
      split at hc
      · exact absurd hc hd
      · exact h.only c hc

theorem Keyed.delete (h : Keyed x key) (hs : KeyDestructors.Slots t x) (hr : Recent x.keys c)
    (hc : key ≠ some c) : Keyed (KeyDestructors.delete x c) key := by
  rcases KeyDestructors.delete_cases hs hr with hsame | ⟨hserial, hnew⟩
  · rw [hsame]
    exact h
  · rw [hnew]
    refine ⟨h.serial, fun d hd => ?_, h.destructor, h.only⟩
    simp only [Function.update_of_ne (h.index_ne hd hc hserial)]
    exact h.allocated d hd

theorem Keyed.store (h : Keyed x key) (hs : KeyDestructors.Slots t x) (hr : Recent x.keys c)
    (v : Option Value) : Keyed (KeyDestructors.store t x c v) key := by
  rcases KeyDestructors.store_cases hs hr v with ⟨-, hsame⟩ | ⟨-, hnew⟩
  · rw [hsame]
    exact h
  · rw [hnew]
    exact ⟨h.serial, h.allocated, h.destructor, h.only⟩

theorem good_create (h : Good t s) {destructor : Option Destructor}
    (hd : destructor ≠ some runThreadExitCallbacks) :
    Good t { s with exit := KeyDestructors.create s.exit destructor } := by
  have hx := KeyDestructors.good_create h.exit destructor
  have hkeyed := h.keyed.create hd
  rcases create_cases s.exit destructor with ⟨hsame, -⟩ | ⟨i, -, -, -, hkeys, hrunning, -⟩
  · rw [hsame]
    exact h
  · refine h.exits hx hkeyed ?_ (by rw [hkeys]) (fun hr => hrunning.trans hr) (by rw [hkeys]; exact h.early)
    cases s.key with
    | none => rfl
    | some c => simp only [head, hkeys]

theorem good_delete (h : Good t s) (hr : Recent s.exit.keys c) (hc : s.key ≠ some c) :
    Good t { s with exit := KeyDestructors.delete s.exit c } := by
  have hx := KeyDestructors.good_delete h.exit c
  have hkeyed := h.keyed.delete h.exit.slots hr hc
  rcases KeyDestructors.delete_cases h.exit.slots hr with hsame | ⟨-, hnew⟩
  · rw [hsame]
    exact h
  · rw [hnew] at hx hkeyed ⊢
    refine h.exits hx hkeyed ?_ Iff.rfl id h.early
    cases s.key <;> rfl

theorem good_store (h : Good t s) (hr : Recent s.exit.keys c) (hc : s.key ≠ some c)
    (huser : KeyDestructors.inUserCode t s.exit = true) (v : Option Value) :
    Good t { s with exit := KeyDestructors.store t s.exit c v } := by
  have hx := KeyDestructors.good_store h.exit hr huser v
  have hkeyed := h.keyed.store h.exit.slots hr v
  rcases KeyDestructors.store_cases h.exit.slots hr v with ⟨-, hsame⟩ | ⟨hserial, hnew⟩
  · rw [hsame]
    exact h
  · rw [hnew] at hx hkeyed ⊢
    refine h.exits hx hkeyed ?_ Iff.rfl id h.early
    cases hkey : s.key with
    | none => rfl
    | some d =>
      have hother := h.keyed.index_ne hkey hc hserial
      simp only [head, KeyService.update₂_other _ _ (Or.inr hother)]

theorem early_of_before (h : s.before = 0) (p : Scan) : Early s p := by
  unfold Early
  split
  · exact h
  · exact Or.inl (Or.inl h)
  · exact Or.inl (Or.inl h)
  · exact Or.inl h

theorem early_of_started (h : Started s) {p : Scan} (hp : p ≠ .idle) : Early s p := by
  unfold Early
  split
  · exact absurd rfl hp
  · exact Or.inl h
  · exact Or.inl h
  · exact h

theorem good_threadExitKey (h : Good t s) (hs : threadExitKey s = some s') : Good t s' := by
  simp only [threadExitKey] at hs
  split at hs
  · rename_i handle hnone hkey
    cases hs
    have hx := KeyDestructors.good_create h.exit (some runThreadExitCallbacks)
    have hbefore : s.before = 0 := Nat.le_zero.mp (h.keyless hnone ▸ h.lists.before)
    rcases create_cases s.exit (some runThreadExitCallbacks) with ⟨-, hno⟩ |
      ⟨i, hi, hfree, hhandle, hkeys, hrunning, hdestructors⟩
    · exact absurd hkey (hno handle)
    · rw [hkey] at hhandle
      cases hhandle
      have hgeneration : nextGeneration (s.exit.keys.keys i).generation =
          generationOf (s.exit.keys.creations i + 1) := by
        rw [h.exit.slots.generation, generationOf, generationOf, Function.iterate_succ_apply']
      have hindex : keyIndex (makeKey i (nextGeneration (s.exit.keys.keys i).generation)) = i := by
        rw [hgeneration]
        exact (KeyService.key_makeKey hi (KeyService.generationOf_bounds (Nat.succ_pos _)).2).1
      have hserial : (KeyDestructors.create s.exit (some runThreadExitCallbacks)).keys.creations i =
          s.exit.keys.creations i + 1 := by simp [hkeys]
      rw [hindex, hserial]
      have hkeyed : Keyed (KeyDestructors.create s.exit (some runThreadExitCallbacks))
          (some ⟨i, s.exit.keys.creations i + 1⟩) := by
        refine ⟨fun c hc => ?_, fun c hc => ?_, fun c hc => ?_, fun c hc => ?_⟩
        · cases hc
          exact ⟨Nat.succ_pos _, hserial⟩
        · cases hc
          simp [hkeys]
        · cases hc
          rw [hdestructors, if_pos rfl]
        · rw [hdestructors] at hc
          split at hc
          · rename_i heq
            rw [heq]
          · exact absurd (h.keyed.only c hc) (by simp [hnone])
      refine ⟨hx, hkeyed, { h.lists with pending := ?_, rest := h.lists.rest }, ?_, ?_, ?_, ?_⟩
      · have hold := h.exit.slots.latest i
        have hpending := h.lists.pending
        simp only [hnone, head] at hpending
        simp only [head, hkeys]
        rw [if_neg (by omega)]
        exact hpending
      · simp only [hkeys, hrunning]
        exact h.running
      · simp only [hkeys]
        exact h.idle
      · intro hkeyless
        cases hkeyless
      · exact early_of_before (by exact hbefore) _
  · cases hs

theorem Keyed.recent (h : Keyed x key) (hc : key = some c) : Recent x.keys c := by
  obtain ⟨hpos, hserial⟩ := h.serial c hc
  refine ⟨hpos, Nat.le_of_eq hserial.symm, ?_⟩
  simp only [KeyService.period]
  omega

theorem Keyed.has (h : Keyed x key) (hs : KeyDestructors.Slots t x) (hc : key = some c) :
    x.keys.has c.handle = true :=
  (hs.has_iff (h.recent hc)).2.2.mpr ⟨h.allocated c hc, (h.serial c hc).2⟩

/-- The key's value is not one that the thread has stored under an earlier creation of its slot. -/
theorem getSpecific_eq (h : Keyed x key) (hs : KeyDestructors.Slots t x) (hc : key = some c)
    (hr : RecentlyStored x.keys t c.index) : getSpecific t x.keys c = head t x (some c) := by
  obtain ⟨hpos, hserial⟩ := h.serial c hc
  obtain ⟨hindex, hgeneration, -⟩ := hs.has_iff (h.recent hc)
  have hsame : generationOf (x.keys.latest t c.index) = generationOf c.serial ↔
      x.keys.latest t c.index = c.serial := by
    refine ⟨fun heq => ?_, fun heq => by rw [heq]⟩
    have hlatest : 0 < x.keys.latest t c.index := by
      rw [Nat.pos_iff_ne_zero]
      intro hzero
      have hbound := (KeyService.generationOf_bounds hpos).1
      rw [← heq, hzero] at hbound
      exact absurd hbound (by decide)
    refine KeyService.generationOf_injective hlatest (hserial ▸ hs.latest c.index) ?_ heq
    rw [← hserial]
    exact hr.resolve_left (Nat.pos_iff_ne_zero.mp hlatest)
  simp only [getSpecific, keyGet, h.has hs hc, hindex, hgeneration, hs.stamp, hsame, Bool.true_and,
    decide_eq_true_eq, head]
  split
  · rename_i heq
    split at heq <;> simp_all
  · rename_i hno
    split at hno <;> simp_all

theorem Good.inUserCode (h : Good t s) (huser : inUserCode t s = true) :
    KeyDestructors.inUserCode t s.exit = true := by
  unfold ExitCallbacks.inUserCode at huser
  split at huser
  · exact (Bool.and_eq_true_iff.mp huser).1
  · rename_i hloop
    simp only [KeyDestructors.inUserCode, Bool.or_eq_true, decide_eq_true_eq]
    exact (h.running.resolve_left (by simp [hloop])).symm.imp_left And.left
  · cases huser

theorem Lists.relinked {e : Element} (h : Lists t s) (he : e ∉ s.pending ++ s.rest) (p : Option Element) :
    Lists t { s with next := Function.update s.next e p } := by
  rw [List.mem_append, not_or] at he
  have hother : ∀ l : List Element, e ∉ l → ∀ a ∈ l, Function.update s.next e p a = s.next a :=
    fun l hl a ha => Function.update_of_ne (ne_of_mem_of_not_mem ha hl) ..
  refine { h with pending := h.pending.congr (hother _ he.1), rest := ?_ }
  have hrest := h.rest
  cases hloop : s.loop with
  | none =>
    rw [hloop] at hrest
    exact hrest
  | some l =>
    rw [hloop] at hrest
    cases l with
    | element q => exact Chain.congr hrest (hother _ he.2)
    | callback q => exact Chain.congr hrest (hother _ he.2)

theorem Lists.push {e : Element} (h : Lists t s) (he : e ∉ s.pending ++ s.rest)
    (hhead : head t x s.key = some e) : Lists t { s with
      exit := x
      next := Function.update s.next e (head t s.exit s.key)
      pushed := s.pushed + 1
      number := Function.update s.number e s.pushed
      pending := e :: s.pending } := by
  obtain ⟨hpending, hrest, hnodup, hnumbers, horder, hperm, hlast, hstarts, hbefore⟩ :=
    h.relinked he (head t s.exit s.key)
  have hsame : ∀ l : List Element, e ∉ l →
      l.map (Function.update s.number e s.pushed) = l.map s.number :=
    fun l hl => List.map_congr_left fun a ha => Function.update_of_ne (ne_of_mem_of_not_mem ha hl) ..
  obtain ⟨hp, hr⟩ := not_or.mp (he ∘ List.mem_append.mpr)
  refine ⟨?_, hrest, List.nodup_cons.mpr ⟨he, hnodup⟩, ?_, ?_, ?_, ?_, hstarts, ?_⟩
  · simp only [hhead]
    refine .cons ?_
    rw [Function.update_self]
    exact hpending
  · have hlast : lastStart s ≤ s.pushed := hlast
    change (e :: s.pending).map (Function.update s.number e s.pushed) =
      (List.range' (lastStart s) (s.pushed + 1 - lastStart s)).reverse
    rw [List.map_cons, Function.update_self, hsame _ hp,
      show s.pushed + 1 - lastStart s = s.pushed - lastStart s + 1 by omega, List.range'_concat,
      List.reverse_append, Nat.one_mul, show lastStart s + (s.pushed - lastStart s) = s.pushed by omega]
    exact congrArg _ hnumbers
  · change s.ran ++ s.rest.map (Function.update s.number e s.pushed) = _
    rw [hsame _ hr]
    exact horder
  · change (s.ran ++ s.rest.map (Function.update s.number e s.pushed)).Perm _
    rw [hsame _ hr]
    exact hperm
  · exact Nat.le_succ_of_le hlast
  · exact Nat.le_succ_of_le hbefore

theorem good_atThreadExit {e : Element} (h : Good t s) (huser : inUserCode t s = true)
    (he : e ∉ s.pending ++ s.rest) (hr : ∀ c, s.key = some c → RecentlyStored s.exit.keys t c.index)
    (hs : atThreadExit t s e = some s') : Good t s' := by
  simp only [atThreadExit] at hs
  split at hs
  · cases hs
  · rename_i c hkey
    rw [if_pos (h.keyed.has h.exit.slots hkey), getSpecific_eq h.keyed h.exit.slots hkey (hr c hkey)] at hs
    cases hs
    have hrecent := h.keyed.recent hkey
    have hx := KeyDestructors.good_store h.exit hrecent (h.inUserCode huser) (some e)
    have hkeyed := h.keyed.store h.exit.slots hrecent (some e)
    rcases KeyDestructors.store_cases h.exit.slots hrecent (some e) with ⟨hnot, -⟩ | ⟨-, hnew⟩
    · exact absurd (h.keyed.has h.exit.slots hkey) hnot
    · have hhead : head t (KeyDestructors.store t s.exit c (some e)) s.key = some e := by
        rw [hkey, hnew]
        simp only [head, KeyService.update₂_self, if_true]
      have hlists := h.lists.push he hhead
      rw [hkey] at hlists
      refine ⟨hx, hkeyed, ?_, ?_, ?_, ?_, ?_⟩
      · simpa only [hkey] using hlists
      · rw [hnew]
        exact h.running
      · rw [hnew]
        exact h.idle
      · exact fun hnone => by simp [hkey] at hnone
      · rw [hnew]
        exact h.early

theorem Lists.enter (h : Lists t s) (hrest : s.rest = []) (hhead : head t x s.key = none)
    (hs' : s' = { s with
      exit := x
      exiting := s'.exiting
      loop := some (.element (head t s.exit s.key))
      rest := s.pending
      pending := []
      starts := s.starts ++ [s.pushed] }) : Lists t s' := by
  obtain ⟨hpending, -, hnodup, hnumbers, horder, hperm, hbound, hstarts, hbefore⟩ := h
  rw [hrest] at hnodup horder hperm
  rw [List.map_nil, List.append_nil] at horder hperm
  rw [List.append_nil] at hnodup
  have hlast : (s.starts ++ [s.pushed]).getLastD 0 = s.pushed := by simp
  rw [hs']
  refine ⟨?_, hpending, hnodup, ?_, ?_, ?_, ?_, ?_, hbefore⟩
  · simp only [hhead]
    exact .nil
  · simp [lastStart]
  · change s.ran ++ s.pending.map s.number = batches 0 (s.starts ++ [s.pushed])
    rw [batches_concat, horder, hnumbers]
    rfl
  · change (s.ran ++ s.pending.map s.number).Perm (List.range ((s.starts ++ [s.pushed]).getLastD 0))
    have hsplit : List.range s.pushed =
        List.range (lastStart s) ++ List.range' (lastStart s) (s.pushed - lastStart s) := by
      have happend : List.range' 0 (lastStart s) ++
          List.range' (0 + lastStart s) (s.pushed - lastStart s) = _ := List.range'_append_1
      rw [Nat.zero_add, Nat.add_sub_cancel' hbound] at happend
      rw [List.range_eq_range', List.range_eq_range', happend]
    rw [hlast, hsplit, hnumbers]
    exact hperm.append (List.reverse_perm _)
  · exact Nat.le_of_eq hlast
  · intro m hm
    rcases List.mem_append.mp hm with hm | hm
    · exact hstarts m hm
    · rw [List.mem_singleton.mp hm]
      exact hbefore

theorem good_exits (h : Good t s) (hloop : s.loop = none) (huser : inUserCode t s = true)
    (hr : ∀ c, s.key = some c → RecentlyStored s.exit.keys t c.index)
    (hs : runCurrentThreadExitCallbacks t s = some s') : Good t s' := by
  simp only [runCurrentThreadExitCallbacks] at hs
  split at hs
  · cases hs
  · rename_i c hkey
    rw [getSpecific_eq h.keyed h.exit.slots hkey (hr c hkey)] at hs
    cases hs
    have hrecent := h.keyed.recent hkey
    have hx := KeyDestructors.good_store h.exit hrecent (h.inUserCode huser) none
    have hkeyed := h.keyed.store h.exit.slots hrecent none
    have hrest : s.rest = [] := by
      have := h.lists.rest
      rwa [hloop] at this
    rcases KeyDestructors.store_cases h.exit.slots hrecent none with ⟨hnot, -⟩ | ⟨-, hnew⟩
    · exact absurd (h.keyed.has h.exit.slots hkey) hnot
    · have hhead : head t (KeyDestructors.store t s.exit c none) s.key = none := by
        rw [hkey, hnew]
        simp only [head, KeyService.update₂_self, if_true]
      refine ⟨hx, hkeyed, h.lists.enter hrest hhead (by simp only [enter, hkey]), ?_, ?_, ?_, ?_⟩
      · right
        rw [hnew]
        have hcode := h.inUserCode huser
        simp only [KeyDestructors.inUserCode, Bool.or_eq_true, decide_eq_true_eq] at hcode
        exact hcode.symm.imp_right fun hidle => ⟨hidle, rfl⟩
      · exact fun _ hnone => nomatch hnone
      · exact fun hnone => absurd (hkey.symm.trans hnone) nofun
      · rw [hnew]
        by_cases hidle : s.exit.keys.scan t = .idle
        · have hearly := h.early
          change Early _ (s.exit.keys.scan t)
          rw [hidle] at hearly ⊢
          exact hearly
        · exact early_of_started (Or.inr (by simp [enter])) hidle

theorem Started.trans (h : Started s) (hbefore : s'.before = s.before)
    (hstarts : s'.starts = s.starts ∨ s'.starts ≠ []) : Started s' := by
  rcases h with h | h
  · exact Or.inl (hbefore.trans h)
  · rcases hstarts with heq | hne
    · exact Or.inr (heq ▸ h)
    · exact Or.inr hne

theorem Scan.next_ne_idle (pass i : Nat) (invoked : Bool) : Scan.next pass i invoked ≠ .idle := by
  unfold Scan.next
  split
  · exact nofun
  · split <;> exact nofun

theorem Early.next {pass i stamp : Nat} {invoked called : Bool} {destructor : Option Destructor}
    (h : Early s (.fetched pass i invoked destructor stamp)) (hkey : s'.key = s.key)
    (hindex : ∀ c, s.key = some c → c.index < runtimeThreadKeyCount)
    (hstarted : Started s → Started s')
    (hcalls : ∀ c, s.key = some c → i = c.index → destructor = some runThreadExitCallbacks →
      stamp = generationOf c.serial → Started s') : Early s' (.next pass i called) := by
  have hnext := Scan.next_ne_idle pass i called
  cases pass with
  | succ pass => exact early_of_started (hstarted h) hnext
  | zero =>
    rcases h with h | ⟨c, hc, hle, hread⟩
    · exact early_of_started (hstarted h) hnext
    · rcases Nat.lt_or_eq_of_le hle with hlt | heq
      · have hmore : i + 1 < runtimeThreadKeyCount := Nat.lt_of_le_of_lt hlt (hindex c hc)
        rw [Scan.next, if_pos hmore]
        exact Or.inr ⟨c, hkey.trans hc, hlt⟩
      · obtain ⟨hd, hstamp⟩ := hread heq
        exact early_of_started (hcalls c hc heq hd hstamp) hnext

/-- Callbacks that were registered before the exit are still in the slot when the loop has not
begun. -/
theorem Lists.head_ne_none (h : Lists t s) (hnot : ¬ Started s) :
    head t s.exit s.key ≠ none := by
  obtain ⟨hbefore, hstarts⟩ := not_or.mp hnot
  rw [not_not] at hstarts
  have hpending := h.pending
  intro hnone
  rw [hnone] at hpending
  have hempty := hpending.eq_nil
  have hnumbers := congrArg List.length h.numbers
  have hle := h.before
  rw [hempty, lastStart, hstarts] at hnumbers
  simp only [List.map_nil, List.length_nil, List.length_reverse, List.length_range', List.getLastD_nil,
    Nat.sub_zero] at hnumbers
  omega

theorem good_scan_idle (h : Good t s) (hx : KeyDestructors.Good t (KeyDestructors.scan t s.exit))
    (hloop : s.loop = none) (hrest : s.rest = []) (hlive : s.ranThere = false)
    (hp : s.exit.keys.scan t = .idle) : Good t (scan t s) := by
  have hnew : scan t s = { s with exit := KeyDestructors.scan t s.exit, before := s.pushed } := by
    simp only [scan, runThreadSpecificDestructors, hp, if_true]
  rw [KeyDestructors.scan_idle hp] at hx hnew
  rw [hnew]
  have hstarts := h.idle hp hloop hlive
  have hhead : ∀ key, head t { s.exit with
      keys := { s.exit.keys with scan := Function.update s.exit.keys.scan t (.fetch 0 0 false) }
      halves := s.exit.halves + 1 } key = head t s.exit key := by
    intro key
    cases key <;> rfl
  refine ⟨hx, ⟨h.keyed.serial, h.keyed.allocated, h.keyed.destructor, h.keyed.only⟩,
    { h.lists with pending := ?_, rest := ?_, starts := ?_, before := Nat.le_refl _ }, Or.inl hloop,
    ?_, h.keyless, ?_⟩
  · rw [hhead]
    exact h.lists.pending
  · rw [hloop]
    exact hrest
  · rw [hstarts]
    intro _ hstart
    cases hstart
  · simp
  · simp only [Function.update_self]
    cases hkey : s.key with
    | none => exact Or.inl (Or.inl (h.keyless hkey))
    | some c => exact Or.inr ⟨c, rfl, Nat.zero_le _⟩

section
variable {pass i stamp : Nat} {invoked : Bool} {d : Destructor} {destructor : Option Destructor}
  {x : Element}

theorem good_scan_fetch (h : Good t s) (hx : KeyDestructors.Good t (KeyDestructors.scan t s.exit))
    (hrunning : s.exit.running = false) (hp : s.exit.keys.scan t = .fetch pass i invoked) :
    Good t (scan t s) := by
  have hs := h.exit.slots
  have hnew : scan t s = { s with exit := KeyDestructors.scan t s.exit } := by
    simp only [scan, runThreadSpecificDestructors, hp]
    simp
  rw [KeyDestructors.scan_fetch hp] at hx hnew
  rw [hnew]
  have hearly := h.early
  rw [hp] at hearly
  refine h.exits hx ⟨h.keyed.serial, h.keyed.allocated, h.keyed.destructor, h.keyed.only⟩ ?_ ?_ ?_ ?_
  · cases s.key <;> rfl
  · simp [hp]
  · simp [hrunning]
  · simp only [Function.update_self]
    cases pass with
    | succ pass => exact hearly
    | zero =>
      refine hearly.imp id ?_
      rintro ⟨c, hc, hle⟩
      refine ⟨c, hc, hle, ?_⟩
      rintro rfl
      have hserial := (h.keyed.serial c hc).2
      have hallocated := h.keyed.allocated c hc
      rw [if_pos hallocated, hs.destructor _ hallocated, hs.generation, hserial]
      exact ⟨h.keyed.destructor c hc, rfl⟩

theorem Good.key_index (h : Good t s) (c : Creation) (hc : s.key = some c) :
    c.index < runtimeThreadKeyCount :=
  h.exit.slots.index_lt (h.keyed.recent hc)

theorem scan_called (hp : s.exit.keys.scan t = .fetched pass i invoked (some d) stamp)
    (hvalue : s.exit.keys.values t i = some x) (hstamp : s.exit.keys.generations t i = stamp) :
    KeyDestructors.scan t s.exit = { s.exit with
      keys := { s.exit.keys with
        scan := Function.update s.exit.keys.scan t (.next pass i true)
        values := update₂ s.exit.keys.values t i none }
      halves := s.exit.halves + 1
      passes := s.exit.passes + KeyDestructors.ends i
      running := true
      held := Function.update s.exit.held i none
      calls := s.exit.calls ++ [⟨d, ⟨i, s.exit.seen⟩, x, s.exit.held i, none⟩] } := by
  rcases KeyDestructors.scan_fetched hp with ⟨d', x', hd, hx, -, hnew⟩ | ⟨hnot, -⟩
  · rw [Option.some.inj hd, ← Option.some.inj (hvalue.symm.trans hx)] at *
    exact hnew
  · exact absurd hstamp (hnot d x rfl hvalue)

theorem good_scan_callbacks (h : Good t s)
    (hx : KeyDestructors.Good t (KeyDestructors.scan t s.exit)) (hrest : s.rest = [])
    (hp : s.exit.keys.scan t = .fetched pass i invoked (some runThreadExitCallbacks) stamp)
    (hvalue : s.exit.keys.values t i = some x) (hstamp : s.exit.keys.generations t i = stamp)
    (hlatest : s.exit.keys.latest t i = s.exit.seen)
    (hread : s.exit.destructors ⟨i, s.exit.seen⟩ = some runThreadExitCallbacks) : Good t (scan t s) := by
  have hearly := h.early
  rw [hp] at hearly
  have hnew := scan_called hp hvalue hstamp
  have hkey := h.keyed.only _ hread
  have hold : head t s.exit s.key = some x := by
    rw [hkey]
    simp only [head, hlatest, if_true]
    exact hvalue
  have hcleared : head t (KeyDestructors.scan t s.exit) s.key = none := by
    rw [hkey, hnew]
    simp only [head, KeyService.update₂_self, ite_self]
  have heq : scan t s = enter { s with exit := KeyDestructors.scan t s.exit } (some x) := by
    simp only [scan, runThreadSpecificDestructors, hp, hvalue, if_pos hstamp]
    simp
  rw [heq]
  refine ⟨hx, ?_, h.lists.enter hrest hcleared (by rw [hold]; rfl), ?_, ?_, h.keyless, ?_⟩
  · change Keyed (KeyDestructors.scan t s.exit) s.key
    rw [hnew]
    exact ⟨h.keyed.serial, h.keyed.allocated, h.keyed.destructor, h.keyed.only⟩
  · exact Or.inr (Or.inl (by simp [enter, hnew]))
  · intro _ hnone
    cases hnone
  · change Early _ ((KeyDestructors.scan t s.exit).keys.scan t)
    rw [hnew]
    simp only [Function.update_self]
    have hstarted : Started (enter { s with exit := KeyDestructors.scan t s.exit } (some x)) :=
      Or.inr (by simp [enter])
    rw [hnew] at hstarted
    exact hearly.next rfl h.key_index (fun _ => hstarted) fun _ _ _ _ _ => hstarted

theorem good_scan_calls (h : Good t s) (hx : KeyDestructors.Good t (KeyDestructors.scan t s.exit))
    (hrunning : s.exit.running = false)
    (hp : s.exit.keys.scan t = .fetched pass i invoked (some d) stamp)
    (hvalue : s.exit.keys.values t i = some x) (hstamp : s.exit.keys.generations t i = stamp)
    (hlatest : s.exit.keys.latest t i = s.exit.seen)
    (hread : s.exit.destructors ⟨i, s.exit.seen⟩ = some d) (hother : d ≠ runThreadExitCallbacks) :
    Good t (scan t s) := by
  have hearly := h.early
  rw [hp] at hearly
  have hnew := scan_called hp hvalue hstamp
  have hplace : (KeyDestructors.scan t s.exit).keys.scan t = .next pass i true := by simp [hnew]
  have hapart : ∀ c, s.key = some c → s.exit.keys.latest t i = c.serial → c.index ≠ i := by
    rintro c hc hserial rfl
    have hdestructor := h.keyed.destructor c hc
    rw [← hlatest, hserial, hdestructor] at hread
    exact hother (Option.some.inj hread).symm
  have heq : scan t s = { s with exit := KeyDestructors.scan t s.exit } := by
    simp only [scan, runThreadSpecificDestructors, hp, hvalue, if_pos hstamp, if_neg hother]
    simp
  rw [heq]
  refine h.exits hx ?_ ?_ ?_ ?_ ?_
  · rw [hnew]
    exact ⟨h.keyed.serial, h.keyed.allocated, h.keyed.destructor, h.keyed.only⟩
  · cases hkey : s.key with
    | none => rfl
    | some c =>
      rw [hnew]
      by_cases hslot : c.index = i
      · have hlater : s.exit.keys.latest t c.index ≠ c.serial := fun hserial =>
          hapart c hkey (hslot ▸ hserial) hslot
        simp only [head, if_neg hlater]
      · simp only [head, KeyService.update₂_other _ _ (Or.inr hslot)]
  · simp only [hplace, hp, reduceCtorEq, iff_false]
    exact Scan.next_ne_idle _ _ _
  · simp [hrunning]
  · rw [hplace]
    refine hearly.next rfl h.key_index id fun c hc hi hd _ => ?_
    exact absurd (Option.some.inj hd) hother

theorem good_scan_clean (h : Good t s) (hx : KeyDestructors.Good t (KeyDestructors.scan t s.exit))
    (hrunning : s.exit.running = false)
    (hp : s.exit.keys.scan t = .fetched pass i invoked destructor stamp)
    (hnot : ∀ d x, destructor = some d → s.exit.keys.values t i = some x →
      s.exit.keys.generations t i ≠ stamp)
    (hnew : KeyDestructors.scan t s.exit = { s.exit with
      keys := { s.exit.keys with scan := Function.update s.exit.keys.scan t (.next pass i invoked) }
      halves := s.exit.halves + 1
      passes := s.exit.passes + KeyDestructors.ends i }) : Good t (scan t s) := by
  have hearly := h.early
  rw [hp] at hearly
  have hplace : (KeyDestructors.scan t s.exit).keys.scan t = .next pass i invoked := by simp [hnew]
  have hanswer : ∀ d x, (runThreadSpecificDestructors s.exit.keys t).2 ≠ .called d x := by
    intro d x hcalled
    simp only [runThreadSpecificDestructors, hp] at hcalled
    split at hcalled
    · split at hcalled
      · rename_i d' x' hvalue hstamp
        exact hnot d' x' rfl hvalue hstamp
      · cases hcalled
    · cases hcalled
  have heq : scan t s = { s with exit := KeyDestructors.scan t s.exit } := by
    simp only [scan, hp, reduceCtorEq, if_false]
  rw [heq]
  refine h.exits hx ?_ ?_ ?_ ?_ ?_
  · rw [hnew]
    exact ⟨h.keyed.serial, h.keyed.allocated, h.keyed.destructor, h.keyed.only⟩
  · rw [hnew]
    cases s.key <;> rfl
  · simp only [hplace, hp, reduceCtorEq, iff_false]
    exact Scan.next_ne_idle _ _ _
  · simp [hrunning]
  · rw [hplace]
    refine hearly.next rfl h.key_index id fun c hc hi hd hstamp => ?_
    by_contra hstarted
    -- the value is there, and would have been read
    have hhead := h.lists.head_ne_none hstarted
    rw [hc] at hhead
    simp only [head] at hhead
    split at hhead
    · rename_i hlatest
      obtain ⟨x, hvalue⟩ := Option.ne_none_iff_exists'.mp hhead
      refine hnot _ x hd (hi ▸ hvalue) ?_
      rw [h.exit.slots.stamp, hi, hlatest, hstamp]
    · exact hhead rfl

end

theorem good_scan (h : Good t s) (hloop : s.loop = none) (hlive : s.ranThere = false)
    (hrunning : s.exit.running = false) (hover : s.exit.keys.scan t ≠ .finished)
    (hr : ∀ pass i invoked destructor stamp, s.exit.keys.scan t =
      .fetched pass i invoked destructor stamp → RecentlyStored s.exit.keys t i) : Good t (scan t s) := by
  have hx := KeyDestructors.good_scan h.exit hrunning hover hr
  have hrest : s.rest = [] := by
    have := h.lists.rest
    rwa [hloop] at this
  cases hp : s.exit.keys.scan t with
  | finished => exact absurd hp hover
  | idle => exact good_scan_idle h hx hloop hrest hlive hp
  | fetch pass i invoked => exact good_scan_fetch h hx hrunning hp
  | fetched pass i invoked destructor stamp =>
    have hspot := h.exit.spot
    rw [hp] at hspot
    obtain ⟨-, -, hseen⟩ := hspot
    rcases KeyDestructors.scan_fetched hp with ⟨d, x, rfl, hvalue, hstamp, -⟩ | ⟨hnot, hnew⟩
    · have hlatest := hseen.latest_eq h.exit.slots (hr _ _ _ _ _ hp) hvalue hstamp
      have hread := hseen.read d rfl
      by_cases hcallbacks : d = runThreadExitCallbacks
      · subst hcallbacks
        exact good_scan_callbacks h hx hrest hp hvalue hstamp hlatest hread
      · exact good_scan_calls h hx hrunning hp hvalue hstamp hlatest hread hcallbacks
    · exact good_scan_clean h hx hrunning hp hnot hnew

theorem good_call {e : Element} (h : Good t s) (hloop : s.loop = some (.element (some e))) :
    Good t { s with
      loop := some (.callback (s.next e))
      rest := s.rest.tail
      ran := s.ran ++ [s.number e] } := by
  obtain ⟨hx, hkeyed, hlists, hrunning, hidle, hkeyless, hearly⟩ := h
  obtain ⟨hpending, hrest, hnodup, hnumbers, horder, hperm, hbound, hstarts, hbefore⟩ := hlists
  rw [hloop] at hrest
  obtain ⟨rest, hrest', hchain⟩ := Chain.exists_cons hrest
  rw [hrest'] at hnodup horder hperm
  have hsplit : s.ran ++ (e :: rest).map s.number = s.ran ++ [s.number e] ++ rest.map s.number := by simp
  rw [hsplit] at horder hperm
  rw [hrest', List.tail_cons]
  refine ⟨hx, hkeyed, ⟨hpending, hchain, ?_, hnumbers, horder, hperm, hbound, hstarts, hbefore⟩, ?_, ?_,
    hkeyless, hearly⟩
  · exact hnodup.sublist ((List.sublist_cons_self e rest).append_left s.pending)
  · exact Or.inr (hrunning.resolve_left (by simp [hloop]))
  · exact fun _ hnone => nomatch hnone

theorem good_returns {p : Option Element} (h : Good t s) (hloop : s.loop = some (.callback p)) :
    Good t { s with loop := some (.element p) } := by
  have hrest := h.lists.rest
  rw [hloop] at hrest
  refine { h with lists := { h.lists with rest := hrest }, running := ?_, idle := fun _ hnone => nomatch hnone }
  exact Or.inr (h.running.resolve_left (by simp [hloop]))

theorem head_running (key : Option Creation) (b : Bool) :
    head t { x with running := b } key = head t x key := by
  cases key <;> rfl

theorem good_destructorReturns (h : Good t s) (hloop : s.loop = none) :
    Good t { s with exit := { s.exit with running := false } } := by
  refine ⟨KeyDestructors.good_returns h.exit,
    ⟨h.keyed.serial, h.keyed.allocated, h.keyed.destructor, h.keyed.only⟩,
    { h.lists with pending := ?_, rest := h.lists.rest }, Or.inl hloop, h.idle, h.keyless, h.early⟩
  rw [head_running]
  exact h.lists.pending

theorem good_leave (h : Good t s) (hloop : s.loop = some (.element none)) :
    Good t (if s.exiting then { s with loop := none, ranThere := true }
      else { s with loop := none, exit := { s.exit with running := false } }) := by
  have hrest := h.lists.rest
  rw [hloop] at hrest
  have hempty : s.rest = [] := Chain.eq_nil hrest
  split
  · exact { h with
      lists := { h.lists with rest := hempty }
      running := Or.inl rfl
      idle := fun _ _ hlive => nomatch hlive }
  · rename_i hexiting
    have hrunning := (h.running.resolve_left (by simp [hloop])).resolve_right fun hc => hexiting hc.2
    refine ⟨KeyDestructors.good_returns h.exit,
      ⟨h.keyed.serial, h.keyed.allocated, h.keyed.destructor, h.keyed.only⟩,
      { h.lists with pending := ?_, rest := hempty }, Or.inl rfl, fun hidle => ?_, h.keyless, h.early⟩
    · rw [head_running]
      exact h.lists.pending
    · have hspot := h.exit.spot
      change s.exit.keys.scan t = .idle at hidle
      rw [hidle] at hspot
      rw [hspot.2] at hrunning
      cases hrunning

theorem good_step {a : Action} (h : Good t s) (hproper : Proper t s a) (hs : step t s a = some s') :
    Good t s' := by
  cases a with
  | keys a =>
    obtain ⟨hrecent, hown⟩ := hproper
    cases a with
    | create destructor =>
      cases hs
      exact good_create h hown
    | delete c =>
      cases hs
      exact good_delete h hrecent hown
    | store c v =>
      simp only [step] at hs
      split at hs
      · rename_i huser
        cases hs
        exact good_store h hrecent hown (h.inUserCode huser) v
      · cases hs
    | scan =>
      simp only [step] at hs
      split at hs
      · rename_i hmay
        cases hs
        simp only [Bool.and_eq_true, decide_eq_true_eq, Bool.not_eq_true'] at hmay
        obtain ⟨⟨⟨hloop, hlive⟩, hrunning⟩, hover⟩ := hmay
        refine good_scan h hloop hlive hrunning hover fun pass i invoked destructor stamp hp => ?_
        simpa only [KeyDestructors.UsesRecent, hp] using hrecent
      · cases hs
    | returns =>
      simp only [step] at hs
      split at hs
      · rename_i hmay
        cases hs
        simp only [Bool.and_eq_true, decide_eq_true_eq, Bool.not_eq_true'] at hmay
        exact good_destructorReturns h hmay.1.1
      · cases hs
  | threadExitKey => exact good_threadExitKey h hs
  | atThreadExit e =>
    simp only [step] at hs
    split at hs
    · rename_i huser
      exact good_atThreadExit h huser hproper.1 hproper.2 hs
    · cases hs
  | overwrite e next =>
    cases hs
    exact { h with lists := h.lists.relinked hproper next }
  | exits =>
    simp only [step] at hs
    split at hs
    · rename_i hmay
      simp only [Bool.and_eq_true, decide_eq_true_eq] at hmay
      exact good_exits h hmay.1 hmay.2 hproper hs
    · cases hs
  | call =>
    simp only [step] at hs
    split at hs
    · rename_i e hloop
      cases hs
      exact good_call h hloop
    · cases hs
  | returns =>
    simp only [step] at hs
    split at hs
    · rename_i p hloop
      cases hs
      exact good_returns h hloop
    · cases hs
  | leave =>
    simp only [step] at hs
    split at hs
    · rename_i hloop
      have hgood := good_leave h hloop
      split at hs <;> rename_i hexiting
      · cases hs
        rwa [if_pos hexiting] at hgood
      · cases hs
        rwa [if_neg hexiting] at hgood
    · cases hs

theorem Good.pending_eq_nil (h : Good t s) (hclean : ∀ i, KeyDestructors.Clean t s.exit i) :
    s.pending = [] := by
  have hpending := h.lists.pending
  cases hkey : s.key with
  | none =>
    rw [hkey] at hpending
    exact Chain.eq_nil hpending
  | some c =>
    have hallocated := h.keyed.allocated c hkey
    have hserial := (h.keyed.serial c hkey).2
    have hdestructor : (s.exit.keys.keys c.index).destructor ≠ none := by
      rw [h.exit.slots.destructor _ hallocated, hserial, h.keyed.destructor c hkey]
      exact nofun
    have hnone : head t s.exit s.key = none := by
      rw [hkey, head]
      split
      · rename_i hlatest
        exact hclean c.index hallocated hdestructor (hlatest.trans hserial.symm)
      · rfl
    rw [hnone] at hpending
    exact hpending.eq_nil

theorem Good.delivered (h : Good t s) : Delivered t s := by
  have hlists := h.lists
  have hbelow : ∀ n ∈ s.ran, n < lastStart s := fun n hn =>
    List.mem_range.mp (hlists.perm.subset (List.mem_append_left _ hn))
  have honce : s.ran.Nodup :=
    (List.nodup_append.mp (hlists.perm.nodup_iff.mpr List.nodup_range)).1
  have hends (hover : s.exit.keys.scan t = .finished) (hrunning : s.exit.running = false) :
      s.rest = [] := by
    have hloop : s.loop = none := h.running.resolve_right (by simp [hover, hrunning])
    have hrest := hlists.rest
    rwa [hloop] at hrest
  refine ⟨⟨s.rest.map s.number, hlists.order, fun hloop => ?_⟩,
    fun n hn => Nat.lt_of_lt_of_le (hbelow n hn) hlists.bound, honce, fun hover hrunning => ?_,
    fun hover hrunning => ?_⟩
  · have hrest := hlists.rest
    rw [hloop] at hrest
    rw [show s.rest = [] from hrest, List.map_nil]
  · have horder := hlists.order
    rw [hends hover hrunning, List.map_nil, List.append_nil] at horder
    have hearly := h.early
    rw [hover] at hearly
    rcases hearly with hnone | hstarts
    · simp [hnone]
    · obtain ⟨m, ms, hstarts⟩ := List.exists_cons_of_ne_nil hstarts
      have hm : s.before ≤ m := hlists.starts m (by simp [hstarts])
      rw [hstarts, batches, Nat.sub_zero, ← List.range_eq_range'] at horder
      rw [horder] at honce ⊢
      have hlater : ∀ n ∈ batches m ms, s.before ≤ n := by
        intro n hn
        have hnot : n ∉ (List.range m).reverse := fun hmem =>
          (List.nodup_append.mp honce).2.2 n hmem n hn rfl
        rw [List.mem_reverse, List.mem_range] at hnot
        omega
      rw [List.filter_append, List.filter_reverse, filter_range hm,
        List.filter_eq_nil_iff.mpr fun n hn => by simpa using hlater n hn, List.append_nil]
  · refine (h.exit.destroyed.finished hover hrunning).imp_right fun hclean n hn => ?_
    have hnumbers := congrArg List.length hlists.numbers
    rw [h.pending_eq_nil hclean] at hnumbers
    simp only [List.map_nil, List.length_nil, List.length_reverse, List.length_range'] at hnumbers
    have hperm := hlists.perm
    rw [hends hover hrunning, List.map_nil, List.append_nil] at hperm
    exact hperm.symm.subset (List.mem_range.mpr (by omega))

end

/-- Each run of the loop calls the callbacks that were registered since the one before, once and the
newest first. Those registered before the exit have all been called when the destructors end, and
the others too unless these took all four passes. -/
theorem callbacks_delivered {t : ThreadId} {s : Thread}
    (h : Runs.Reached (step t) (Proper t) start s) : Delivered t s :=
  (h.invariant (good_start t) fun _ _ _ => good_step).delivered

instance (t : ThreadId) (s : Thread) : (a : Action) → Decidable (Proper t s a)
  | .keys (.create destructor) =>
    inferInstanceAs (Decidable (_ ∧ destructor ≠ some runThreadExitCallbacks))
  | .keys (.delete c) | .keys (.store c _) => inferInstanceAs (Decidable (_ ∧ s.key ≠ some c))
  | .keys .scan | .keys .returns => inferInstanceAs (Decidable (_ ∧ True))
  | .atThreadExit e =>
    have : Decidable (∀ c, s.key = some c → RecentlyStored s.exit.keys t c.index) := recently s.key
    inferInstanceAs (Decidable (e ∉ s.pending ++ s.rest ∧ _))
  | .exits => recently s.key
  | .overwrite e _ => inferInstanceAs (Decidable (e ∉ s.pending ++ s.rest))
  | .threadExitKey | .call | .returns | .leave => isTrue trivial
where
  recently : (key : Option Creation) →
      Decidable (∀ c, key = some c → RecentlyStored s.exit.keys t c.index)
    | none => isTrue nofun
    | some c => decidable_of_iff (RecentlyStored s.exit.keys t c.index)
        ⟨fun h _ hd => Option.some.inj hd ▸ h, fun h => h c rfl⟩

/-- Two callbacks are registered before the exit. The second one, which is called first, frees its
element, registers it again and registers a third one; a destructor of the program runs before. -/
def registersAgain : List Action :=
  [.keys (.create (some 5)), .keys (.store ⟨0, 1⟩ (some 9)), .threadExitKey, .atThreadExit 100,
    .atThreadExit 200, .keys .scan, .keys .scan, .keys .scan, .keys .returns, .keys .scan, .keys .scan,
    .call, .overwrite 200 (some 7), .atThreadExit 200, .atThreadExit 300, .returns, .call, .returns,
    .leave] ++
    List.replicate 32 (.keys .scan) ++ [.call, .returns, .call, .returns, .leave] ++
    List.replicate 60 (.keys .scan)

theorem callbacks_delivered_registersAgain :
    ∃ s, Runs.perform (step 0) start registersAgain = some s ∧ s.exit.keys.scan 0 = .finished ∧
      s.ran = [1, 0, 3, 2] ∧ s.starts = [2, 4] ∧ Delivered 0 s := by
  have hsome : (Runs.perform (step 0) start registersAgain).map (fun s =>
      (s.exit.keys.scan 0, s.ran, s.starts)) = some (.finished, [1, 0, 3, 2], [2, 4]) := by
    decide +kernel
  obtain ⟨s, hs, hend⟩ := Option.map_eq_some_iff.mp hsome
  have hproper : Runs.Performs (step 0) (Proper 0) start registersAgain := by decide +kernel
  simp only [Prod.mk.injEq] at hend
  exact ⟨s, hs, hend.1, hend.2.1, hend.2.2,
    callbacks_delivered (Runs.reached_of_perform hs hproper)⟩

end SimPLCity.ExitCallbacks
