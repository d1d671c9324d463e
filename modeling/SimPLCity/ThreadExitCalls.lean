import SimPLCity.ExitCallbacks

/-! What a thread calls when it exits: the destructors of its keys, among them the callbacks that it
has registered for its exit. -/

namespace SimPLCity.ThreadExitCalls
open ExitCallbacks
open ThreadKeys hiding Action step
open KeyService (generationOf_succ generationOf_bounds key_makeKey period)

/-- Each destructor is called with a value stored under its own key, in a cleared slot and once for
a store; the passes end, with all values destroyed or after the last pass; and the callbacks are
called as they were registered. -/
structure Finishes (t : ThreadId) (s : Thread) : Prop where
  delivers : ∀ call ∈ s.exit.calls, KeyDestructors.Delivers s.exit call
  once : (s.exit.calls.map KeyDestructors.Call.store).Nodup
  bounded : s.exit.halves ≤ KeyDestructors.maximumHalves
  proceeds : s.loop = none → s.ranThere = false → s.exit.running = false →
    s.exit.keys.scan t ≠ .finished → ∃ s', step t s (.keys .scan) = some s'
  loops : ∀ p, s.loop = some (.element p) → ∃ s', step t s .call = some s' ∨ step t s .leave = some s'
  finished : s.exit.keys.scan t = .finished → s.exit.running = false →
    s.exit.passes = destructorIterations ∨ ∀ i, KeyDestructors.Clean t s.exit i
  callbacks : Delivered t s

theorem Good.finishes {t : ThreadId} {s : Thread} (h : Good t s) : Finishes t s where
  delivers := h.exit.destroyed.delivers
  once := h.exit.destroyed.once
  bounded := h.exit.destroyed.bounded
  proceeds := fun hloop hthere hrunning hover => ⟨scan t s, by simp [step, hloop, hthere, hrunning, hover]⟩
  loops := fun p hloop => by
    cases p with
    | none =>
      cases hexiting : s.exiting with
      | false => exact ⟨_, Or.inr (by simp [step, hloop, hexiting]; rfl)⟩
      | true => exact ⟨_, Or.inr (by simp [step, hloop, hexiting]; rfl)⟩
    | some e => exact ⟨_, Or.inl (by simp [step, hloop]; rfl)⟩
  finished := h.exit.destroyed.finished
  callbacks := h.delivered

theorem thread_exit_finishes {t : ThreadId} {s : Thread}
    (h : Runs.Reached (step t) (Proper t) start s) : Finishes t s :=
  Good.finishes (h.invariant (good_start t) fun _ _ _ => good_step)

/-- The second of two callbacks creates a key and stores a value under it, whose destructor is called
in the second pass. -/
def createsKey : List Action :=
  [.threadExitKey, .atThreadExit 100, .atThreadExit 200, .keys .scan, .keys .scan, .keys .scan, .call,
    .keys (.create (some 5)), .keys (.store ⟨1, 1⟩ (some 9)), .returns, .call, .returns, .leave,
    .keys .scan, .keys .scan, .keys .returns] ++ List.replicate 60 (.keys .scan)

theorem thread_exit_finishes_createsKey : ∃ s, Runs.perform (step 0) start createsKey = some s ∧
    s.exit.keys.scan 0 = .finished ∧ s.ran = [1, 0] ∧
    s.exit.calls.map (fun call => (call.destructor, call.value)) =
      [(runThreadExitCallbacks, 200), (5, 9)] ∧ Finishes 0 s := by
  have hsome : (Runs.perform (step 0) start createsKey).map (fun s =>
      (s.exit.keys.scan 0, s.ran, s.exit.calls.map fun call => (call.destructor, call.value))) =
        some (.finished, [1, 0], [(runThreadExitCallbacks, 200), (5, 9)]) := by
    decide +kernel
  obtain ⟨s, hs, hend⟩ := Option.map_eq_some_iff.mp hsome
  have hproper : Runs.Performs (step 0) (Proper 0) start createsKey := by decide +kernel
  simp only [Prod.mk.injEq] at hend
  exact ⟨s, hs, hend.1, hend.2.1, hend.2.2,
    thread_exit_finishes (Runs.reached_of_perform hs hproper)⟩

/-! After a period of creations the generation of a stored value is that of another key. -/

/-- Without the condition that handles and values are recent. -/
def UsesCreated (s : Thread) : Action → Prop
  | .keys (.create destructor) => destructor ≠ some runThreadExitCallbacks
  | .keys (.delete c) | .keys (.store c _) =>
    (0 < c.serial ∧ c.serial ≤ s.exit.keys.creations c.index) ∧ s.key ≠ some c
  | .atThreadExit e | .overwrite e _ => e ∉ s.pending ++ s.rest
  | _ => True

/-- Thread 0 has stored 7 under the first creation of slot 0, and the key has been deleted and
created `n` times since. -/
structure Cycled (s : Thread) (n : Nat) : Prop where
  definition : s.exit.keys.keys 0 = ⟨some 5, generationOf (n + 1), true⟩
  creations : s.exit.keys.creations 0 = n + 1
  generation : s.exit.keys.generations 0 0 = 1
  value : s.exit.keys.values 0 0 = some 7
  scan : s.exit.keys.scan 0 = .idle
  stores : s.exit.stores = [(⟨0, 1⟩, 7)]
  held : s.exit.held 0 = some 0
  calls : s.exit.calls = []
  running : s.exit.running = false
  body : s.loop = none ∧ s.ranThere = false
  key : s.key = none

theorem Cycled.again {s : Thread} {n : Nat} (h : Cycled s n) :
    ∃ s', Runs.Reached (step 0) UsesCreated s s' ∧ Cycled s' (n + 1) := by
  obtain ⟨hindex, -, hhas⟩ := KeyService.has_created (Nat.succ_pos n) h.definition
  obtain ⟨x, hx⟩ : ∃ x, x = KeyDestructors.delete s.exit ⟨0, n + 1⟩ := ⟨_, rfl⟩
  have hdelete : x = { s.exit with keys := { s.exit.keys with
      keys := Function.update s.exit.keys.keys 0 ⟨none, generationOf (n + 1), false⟩ } } := by
    rw [hx, KeyDestructors.delete, keyDelete, if_pos hhas, hindex, h.definition]
  have hfind : ((List.range runtimeThreadKeyCount).find? fun i => !(x.keys.keys i).allocated) = some 0 :=
    List.find?_cons_of_pos (by simp [hdelete])
  have hnext : nextGeneration (generationOf (n + 1)) = generationOf (n + 2) :=
    (Function.iterate_succ_apply' ..).symm
  have hcreate : (keyCreate x.keys (some 5)).1 = { x.keys with
      keys := Function.update x.keys.keys 0 ⟨some 5, generationOf (n + 2), true⟩
      creations := Function.update x.keys.creations 0 (n + 2) } := by
    simp only [keyCreate, hfind]
    simp [hdelete, hnext, h.creations]
  refine ⟨{ s with exit := KeyDestructors.create x (some 5) },
    (Runs.Reached.start.next (i := .keys (.delete ⟨0, n + 1⟩)) ?_ (by rw [step, ← hx])).next
      (i := .keys (.create (some 5)))
      (show (some 5 : Option Destructor) ≠ some runThreadExitCallbacks by decide) rfl, ?_⟩
  · exact ⟨⟨Nat.succ_pos n, Nat.le_of_eq h.creations.symm⟩, by simp [h.key]⟩
  · constructor <;> simp only [KeyDestructors.create, hcreate] <;> simp [hdelete, h.generation, h.value,
      h.scan, h.stores, h.held, h.calls, h.running, h.body, h.key]

theorem cycled (n : Nat) : ∃ s, Runs.Reached (step 0) UsesCreated start s ∧ Cycled s n := by
  induction n with
  | zero =>
    refine ⟨_, (Runs.Reached.start.next (i := .keys (.create (some 5)))
      (show (some 5 : Option Destructor) ≠ some runThreadExitCallbacks by decide) rfl).next
      (i := .keys (.store ⟨0, 1⟩ (some 7))) ⟨⟨by decide, by decide⟩, by decide⟩ rfl, ?_⟩
    constructor <;> decide +kernel
  | succ n ih =>
    obtain ⟨s, hreached, hcycled⟩ := ih
    obtain ⟨s', hreached', hcycled'⟩ := hcycled.again
    exact ⟨s', hreached.trans hreached', hcycled'⟩

theorem scan_exit (t : ThreadId) (s : Thread) : (scan t s).exit = KeyDestructors.scan t s.exit := by
  unfold scan
  cases (runThreadSpecificDestructors s.exit.keys t).2 with
  | called d x =>
    dsimp only
    split
    · rfl
    · rfl
  | _ => rfl

theorem scan_body {t : ThreadId} {s : Thread}
    (h : (runThreadSpecificDestructors s.exit.keys t).2 = .nothing) :
    (scan t s).loop = s.loop ∧ (scan t s).ranThere = s.ranThere := by
  simp [scan, h]

theorem Cycled.called {s : Thread} {n : Nat} (h : Cycled s n) (hone : generationOf (n + 1) = 1) :
    ∃ s', Runs.Reached (step 0) UsesCreated s s' ∧ s'.exit.stores = [(⟨0, 1⟩, 7)] ∧
      s'.exit.calls = [⟨5, ⟨0, n + 1⟩, 7, some 0, none⟩] := by
  have hnext : ∀ {x : Thread}, Runs.Reached (step 0) UsesCreated s x → x.loop = none →
      x.ranThere = false → x.exit.running = false → x.exit.keys.scan 0 ≠ .finished →
      Runs.Reached (step 0) UsesCreated s (ExitCallbacks.scan 0 x) := by
    intro x hx hloop hthere hrunning hover
    exact hx.next (show UsesCreated x (.keys .scan) from trivial)
      (by simp [step, hloop, hthere, hrunning, hover])
  obtain ⟨hloop, hthere⟩ := h.body
  obtain ⟨hloop₁, hthere₁⟩ := scan_body (t := 0) (s := s) (by simp [runThreadSpecificDestructors, h.scan])
  have hexit₁ := (scan_exit 0 s).trans (KeyDestructors.scan_idle h.scan)
  obtain ⟨x, hx⟩ : ∃ x, x = ExitCallbacks.scan 0 s := ⟨_, rfl⟩
  rw [← hx] at hloop₁ hthere₁ hexit₁
  have hscan₁ : x.exit.keys.scan 0 = .fetch 0 0 false := by simp [hexit₁]
  obtain ⟨hloop₂, hthere₂⟩ := scan_body (t := 0) (s := x) (by simp [runThreadSpecificDestructors, hscan₁])
  have hexit₂ := (scan_exit 0 x).trans (KeyDestructors.scan_fetch hscan₁)
  obtain ⟨y, hy⟩ : ∃ y, y = ExitCallbacks.scan 0 x := ⟨_, rfl⟩
  rw [← hy] at hloop₂ hthere₂ hexit₂
  have hscan₂ : y.exit.keys.scan 0 = .fetched 0 0 false (some 5) 1 := by
    simp [hexit₂, hexit₁, h.definition, hone]
  have hreached₁ := hnext .start hloop hthere h.running (by simp [h.scan])
  rw [← hx] at hreached₁
  have hreached₂ := hnext hreached₁ (by rw [hloop₁, hloop]) (by rw [hthere₁, hthere])
    (by simp [hexit₁, h.running]) (by simp [hscan₁])
  rw [← hy] at hreached₂
  refine ⟨ExitCallbacks.scan 0 y, hnext hreached₂ (by rw [hloop₂, hloop₁, hloop])
    (by rw [hthere₂, hthere₁, hthere]) (by simp [hexit₂, hexit₁, h.running]) (by simp [hscan₂]), ?_, ?_⟩
  all_goals
    rw [scan_exit]
    rcases KeyDestructors.scan_fetched hscan₂ with ⟨d, v, hd, hv, hg, heq⟩ | ⟨hnone, -⟩
  · rw [heq]
    simp [hexit₂, hexit₁, h.stores]
  · exact absurd (by simp [hexit₂, hexit₁, h.generation]) (hnone 5 7 rfl (by simp [hexit₂, hexit₁, h.value]))
  · rw [heq]
    simp only [hexit₂, hexit₁, h.value, Option.some.injEq] at hv hd
    subst hv hd
    simp [hexit₂, hexit₁, h.calls, h.creations, h.held]
  · exact absurd (by simp [hexit₂, hexit₁, h.generation]) (hnone 5 7 rfl (by simp [hexit₂, hexit₁, h.value]))

theorem thread_exit_not_finishes :
    ¬ ∀ s, Runs.Reached (step 0) UsesCreated start s → Finishes 0 s := by
  intro hall
  obtain ⟨n, hpos, hone⟩ : ∃ n, 0 < n ∧ generationOf (n + 1) = 1 :=
    ⟨period, by decide, by rw [generationOf_succ, Nat.mod_self]⟩
  obtain ⟨s, hreached, hcycled⟩ := cycled n
  obtain ⟨s', hreached', hstores, hcalls⟩ := hcycled.called hone
  have hdelivers := (hall s' (hreached.trans hreached')).delivers _ (by rw [hcalls]; exact List.mem_singleton.mpr rfl)
  obtain ⟨m, hm, hstore⟩ := hdelivers.store
  obtain rfl : 0 = m := Option.some.inj hm
  rw [hstores] at hstore
  simp at hstore
  omega

end SimPLCity.ThreadExitCalls
