import SimPLCity.BlockEffects

/-! Every control block is queued for the reaper once and freed when nobody uses it any more,
in every run that never gives a new thread the registry id of a registered one. The counter of
registry ids wraps around, and after that the reaper may take one block for another. -/

namespace SimPLCity.Reclamation
open ThreadLifecycle ControlBlocks BlockBooks BlockEffects

section
variable {s s' : State} {c : ControlId}

/-- A new block gets a registry id that no registered block has. -/
def IdFree (s : State) : Action → Prop
  | .register _ _ => FreshId s
  | _ => True

theorem good_step {i : Action} (h : Good s) (hi : IdFree s i) (hs : step s i = some s') :
    Good s' := by
  cases step_kind h hs with
  | register hs => exact h.register hi hs
  | unregister hs => exact h.unregister hs
  | reap hs => exact h.reap hs
  | effect he => exact h.of_frame he.toFramed he.sound he.calls

theorem good_initial : Good initial := by
  refine ⟨fun c => sound_default c, ⟨fun a c => ?_, fun t ht => ?_⟩, ?_⟩
  · simp [initial, inFlight]
  · simp [initial] at ht
  · constructor <;> simp [initial, Reaping, prepared]

end

/-- The property of a state: one message about each block, sent for certain once the handle
has been used and `thread_entry` has returned; a block that is freed, or that the reaper is
about to free, is out of use; `thread_join` has returned 0 only for freed blocks. -/
structure Reclaimed (s : State) : Prop where
  once : ∀ c, (s.blocks c).sent ≤ 1
  queued : ∀ c, (s.blocks c).usage = .joined ∨ (s.blocks c).usage = .detached →
    (s.blocks c).phase = .exit ∨ (s.blocks c).phase = .completed → (s.blocks c).sent = 1
  deleted : ∀ c, ((s.blocks c).phase ≠ .absent ∧ c ∉ s.registry) ∨
      (∃ ack, s.reaper = .deleting c ack) →
    (s.blocks c).sent = 1 ∧ (s.blocks c).phase = .completed ∧
      (∀ a, touches (s.blocks c).usage ≠ some a) ∧ (s.blocks c).lifecycleMutex = none
  joined : ∀ c, (s.blocks c).usage = .joined →
    (s.blocks c).phase = .completed ∧ c ∉ s.registry

theorem reclaimed_of_good {s : State} (h : Good s) : Reclaimed s := by
  refine ⟨fun c => (h.sound c).sent_le, fun c => (h.sound c).sent_of_used, fun c hc => ?_,
    fun c hu => ?_⟩
  · obtain ⟨hp, h1⟩ : (s.blocks c).phase = .completed ∧ (s.blocks c).sent = 1 := by
      rcases hc with ⟨hp, hc⟩ | ⟨ack, hr⟩
      · exact h.books.freed c hp hc
      · have := h.books.reaping
        rw [hr] at this
        exact ⟨this.2.1, this.1.2.2⟩
    exact ⟨h1, hp, (h.sound c).unused h1 hp⟩
  · have hc := h.books.joined c hu
    exact ⟨(h.books.freed c ((h.sound c).present (by simp [hu])) hc).1, hc⟩

theorem blocks_reclaimed_once {s : State} (h : Runs.Reached step IdFree initial s) :
    Reclaimed s :=
  reclaimed_of_good (h.invariant good_initial fun _ _ _ => good_step)

abbrev creator : Agent := .other 0

/-- A thread that is created, joined and reaped. -/
def joinedLife : List Action :=
  [.register creator 0, .create creator true, .entry 0, .join creator 0, .returns 0, .entry 0,
    .entry 0, .entry 0, .entry 0, .call creator, .call creator, .call creator, .call creator, .call creator,
    .returns 0, .reap, .reap, .reap, .reap, .reap, .call creator]

instance (s : State) (i : Action) : Decidable (IdFree s i) := by
  cases i <;> simp only [IdFree, FreshId] <;> infer_instance

theorem joined_reached : ∃ s, Runs.Reached step IdFree initial s ∧
    (s.blocks 0).usage = .joined := by
  have hsome : (Runs.perform step initial joinedLife).isSome = true := by decide +kernel
  obtain ⟨s, hs⟩ := Option.isSome_iff_exists.mp hsome
  refine ⟨s, Runs.reached_of_perform hs (by decide +kernel), ?_⟩
  have husage : (Runs.perform step initial joinedLife).map (fun s => (s.blocks 0).usage) =
      some .joined := by decide +kernel
  rw [hs] at husage
  exact Option.some.inj husage

theorem blocks_reclaimed_once_joined : ∃ s, Runs.Reached step IdFree initial s ∧
    (s.blocks 0).usage = .joined ∧ Reclaimed s := by
  obtain ⟨s, hreached, husage⟩ := joined_reached
  exact ⟨s, hreached, husage, blocks_reclaimed_once hreached⟩

/-- A running thread. -/
def runner (n : Nat) (c : ControlId) : Block := { registryId := n, phase := .body, control := c }

section
variable {s : State} {c k : ControlId} {n : Nat}

theorem thread_created (hb : s.blocks c = {}) (hidle : ∀ a, s.busy a = none) :
    Runs.perform step s [.register creator c, .create creator true, .entry c] = some
      { s.set c (runner s.nextRegistryId c) with
        registry := c :: s.registry
        nextRegistryId := nextId s.nextRegistryId } := by
  have hbusy : Function.update s.busy creator none = s.busy := by simp [hidle]
  simp [Runs.perform, step, registerThread, threadCreate, State.inUserCode, hidle, hb, State.set,
    State.setBusy, threadEntry, findThread, runner, hbusy]

theorem handle_detached (hb : s.blocks c = runner n c) (hidle : ∀ a, s.busy a = none) :
    Runs.perform step s [.detach creator c, .call creator, .call creator, .call creator] =
      some (s.set c { runner n c with detached := true, usage := .detached }) := by
  have hbusy : Function.update s.busy creator none = s.busy := by simp [hidle]
  simp [Runs.perform, step, State.inUserCode, hidle, hb, State.set, callDetach, State.setUsage,
    State.setBusy, State.change, call, threadDetach, State.finish, ThreadControl.lock,
    ThreadControl.isClaimed, ThreadControl.detach, ThreadControl.unlock, runner, hbusy]

theorem detached_ended (hb : s.blocks c = { runner n c with detached := true, usage := .detached })
    (hidle : s.busy (.thread c) = none) (hqueue : s.queue = []) :
    Runs.perform step s
        [.returns c, .entry c, .entry c, .entry c, .entry c, .entry c, .returns c] = some
      { s.set c { runner n c with
          completion := 1, detached := true, finished := true, cleanupQueued := true,
          phase := .completed, usage := .detached, sent := 1 } with
        queue := [n] } := by
  simp [Runs.perform, step, hidle, hb, hqueue, State.set, returns, State.setPhase, State.change,
    threadEntry, ThreadControl.lock, ThreadControl.finish, ThreadControl.finishEnqueues,
    ThreadControl.unlock, ThreadControl.putCompletion, enqueueCleanup, runner]

theorem thread_ended (hb : s.blocks c = runner n c) (hidle : s.busy (.thread c) = none) :
    Runs.perform step s [.returns c, .entry c, .entry c, .entry c, .entry c, .returns c] =
      some (s.set c { runner n c with completion := 1, finished := true, phase := .completed }) := by
  simp [Runs.perform, step, hidle, hb, State.set, returns, State.setPhase, State.change, threadEntry,
    ThreadControl.lock, ThreadControl.finish, ThreadControl.finishEnqueues, ThreadControl.unlock,
    ThreadControl.putCompletion, runner]

theorem message_taken {registry : List ControlId} (hreaper : s.reaper = .receive)
    (hqueue : s.queue = [n]) (hregistry : s.registry = c :: registry)
    (hid : (s.blocks c).registryId = n) (hp : (s.blocks c).phase = .completed) :
    Runs.perform step s [.reap, .reap, .reap] =
      some { s with queue := [], reaper := .deleting c (s.blocks c).cleanupAck } := by
  simp [Runs.perform, step, reaperEntry, hreaper, hqueue, findThread, hregistry, hid, hp]

theorem block_deleted {rest : List ControlId} (hreaper : s.reaper = .deleting c none)
    (hregistry : s.registry = c :: rest) :
    Runs.perform step s [.reap, .reap] =
      some { s with registry := rest, reaper := .receive } := by
  simp [Runs.perform, step, reaperEntry, hreaper, hregistry]

/-- Thread 0 is running, the ones from `k` on are not created, the rest is done. -/
structure Idle (s : State) (k : ControlId) : Prop where
  positive : 0 < k
  unused : ∀ c, k ≤ c → s.blocks c = {}
  zero : s.blocks 0 = runner 1 0
  busy : ∀ a, s.busy a = none
  registry : s.registry = [0]
  queue : s.queue = []
  reaper : s.reaper = .receive

/-- The whole life of a detached thread. -/
theorem Idle.next (h : Idle s k) : ∃ s', Runs.Reached step (fun _ _ => True) s s' ∧
    Idle s' (k + 1) ∧ s'.nextRegistryId = nextId s.nextRegistryId := by
  have hreach {s s' : State} {is} (hs : Runs.perform step s is = some s') :
      Runs.Reached step (fun _ _ => True) s s' :=
    Runs.reached_of_perform hs (Runs.performs_always (fun _ _ => trivial) s)
  have hcreated := hreach (thread_created (h.unused k (Nat.le_refl k)) h.busy)
  have hdetached := hcreated.trans (hreach (handle_detached (c := k) (set_self ..) h.busy))
  have hended := hdetached.trans (hreach (detached_ended (c := k) (set_self ..) (h.busy _) h.queue))
  have htaken := hended.trans (hreach (message_taken (c := k) h.reaper rfl
    (congrArg (k :: ·) h.registry) (by simp [runner]) (by simp)))
  have hdeleted := htaken.trans (hreach (block_deleted (c := k) (by simp [runner])
    (congrArg (k :: ·) h.registry)))
  refine ⟨_, hdeleted, ?_, rfl⟩
  · have hother : ∀ c, c ≠ k → ∀ b b' b'' : Block,
        (((s.set k b).set k b').set k b'').blocks c = s.blocks c := fun c hc b b' b'' => by
      simp [set_other _ _ hc]
    exact ⟨Nat.succ_pos k, fun c hc => (hother c (Nat.ne_of_gt hc) ..).trans
      (h.unused c (Nat.le_of_succ_le hc)),
      (hother 0 (Nat.ne_of_lt h.positive) ..).trans h.zero, h.busy, rfl, rfl, rfl⟩

theorem idle_first : ∃ s, Runs.Reached step (fun _ _ => True) initial s ∧ Idle s 1 ∧
    s.nextRegistryId = 2 := by
  refine ⟨_, Runs.reached_of_perform (thread_created (c := 0) rfl fun _ => rfl)
    (Runs.performs_always (fun _ _ => trivial) _), ⟨Nat.one_pos, fun c hc => ?_,
    set_self initial 0 (runner 1 0), fun _ => rfl, rfl, rfl, rfl⟩, rfl⟩
  exact set_other _ _ (Nat.ne_of_gt hc)

theorem idle_counted (j : Nat) (hj : j + 2 < 2 ^ 32) :
    ∃ s, Runs.Reached step (fun _ _ => True) initial s ∧ Idle s (j + 1) ∧
      s.nextRegistryId = j + 2 := by
  induction j with
  | zero => exact idle_first
  | succ j ih =>
    obtain ⟨s, hs, hidle, hnext⟩ := ih (by omega)
    obtain ⟨s', hs', hidle', hnext'⟩ := hidle.next
    refine ⟨s', hs.trans hs', hidle', ?_⟩
    rw [hnext', hnext, nextId, Nat.mod_eq_of_lt (by omega)]
    simp

theorem idle_wrapped : ∃ s k, Runs.Reached step (fun _ _ => True) initial s ∧ Idle s k ∧
    s.nextRegistryId = 1 := by
  obtain ⟨s, hs, hidle, hnext⟩ := idle_counted (2 ^ 32 - 3) (by omega)
  obtain ⟨s', hs', hidle', hnext'⟩ := hidle.next
  exact ⟨s', _, hs.trans hs', hidle', hnext'.trans (by rw [hnext]; rfl)⟩

end

/-- A join that is aborted, as the one use of its handle. -/
def abortedLife : List Action :=
  [.register creator 0, .create creator true, .entry 0, .join creator 0, .joinFails creator true,
    .returns 0, .entry 0,
    .entry 0, .entry 0, .entry 0, .returns 0]

/-- The message about thread 0 is taken for one about the thread that got its id; and a block
whose join has failed is never queued. -/
theorem blocks_not_reclaimed_once :
    (∃ s, Runs.Reached step (fun _ _ => True) initial s ∧ ¬ Reclaimed s) ∧
      ∃ s, Runs.Reached step IdFree initial s ∧ (s.blocks 0).usage = .failed ∧
        (s.blocks 0).phase = .completed ∧ (s.blocks 0).sent = 0 := by
  constructor
  · have hreach {s s' : State} {is} (hs : Runs.perform step s is = some s') :
        Runs.Reached step (fun _ _ => True) s s' :=
      Runs.reached_of_perform hs (Runs.performs_always (fun _ _ => trivial) s)
    obtain ⟨s, k, hs, h, hnext⟩ := idle_wrapped
    have hk : 0 ≠ k := Nat.ne_of_lt h.positive
    have hcreated := hs.trans (hreach (thread_created (h.unused k (Nat.le_refl k)) h.busy))
    rw [hnext] at hcreated
    have hdetached := hcreated.trans (hreach (handle_detached (c := 0)
      ((set_other _ _ hk).trans h.zero) h.busy))
    have hended := hdetached.trans
      (hreach (detached_ended (c := 0) (set_self ..) (h.busy _) h.queue))
    have hcompleted := hended.trans (hreach (thread_ended (n := 1) (c := k)
      (by simp [set_other, hk.symm]) (h.busy _)))
    -- the registry has two threads with the id 1 now, and the one found first is not thread 0
    have htaken := hcompleted.trans (hreach (message_taken (c := k) h.reaper rfl
      (congrArg (k :: ·) h.registry) (by simp [runner]) (by simp)))
    refine ⟨_, htaken, fun hr => ?_⟩
    have := (hr.deleted k (Or.inr ⟨_, rfl⟩)).1
    simp [runner] at this
  · have hsome : (Runs.perform step initial abortedLife).isSome = true := by decide +kernel
    obtain ⟨s, hs⟩ := Option.isSome_iff_exists.mp hsome
    have hblock : (Runs.perform step initial abortedLife).map (fun s => s.blocks 0) =
        some { runner 1 0 with
          completion := 1, finished := true, phase := .completed, usage := .failed } := by
      decide +kernel
    rw [hs, Option.map_some, Option.some.injEq] at hblock
    exact ⟨s, Runs.reached_of_perform hs (by decide +kernel), by simp [hblock, runner]⟩

end SimPLCity.Reclamation
