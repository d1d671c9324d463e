import SimPLCity.Reclamation

/-! Registry ids stand for control blocks: in the arguments of the threads, in the cleanup queue
and in the reaper, as long as there are fewer than 2 ^ 32 - 1 creations during the life of a block.
A ledger beside the state records which block each queued message was sent about. -/

namespace SimPLCity.RegistryIds
open ThreadLifecycle ControlBlocks BlockBooks BlockEffects Reclamation

/-- `senders` are the blocks that the messages in the queue were sent about, `taken` is the one
that the reaper's message was sent about. `creations` counts the registrations, also those of blocks
whose threads could not be created, and `serials` how many came before a block's own. -/
structure Ledger where
  state : State
  senders : List ControlId := []
  taken : Option ControlId := none
  creations : Nat := 0
  serials : ControlId → Nat := fun _ => 0

def Ledger.start : Ledger := { state := initial }

/-- The state takes its step; a message goes through the ledger with the block it is about. -/
def Ledger.step (l : Ledger) (i : Action) : Option Ledger :=
  (ThreadLifecycle.step l.state i).map fun s =>
    match i with
    | .register _ c => { l with
        state := s
        creations := l.creations + 1
        serials := Function.update l.serials c l.creations }
    | .reap =>
      if l.state.reaper = .receive then
        { l with state := s, senders := l.senders.tail, taken := l.senders.head? }
      else { l with state := s }
    | i => { l with state := s, senders := l.senders ++ (message l.state i).toList }

/-- There are fewer than `2 ^ 32 - 1` creations during the life of a block, with this one. -/
def Spaced (l : Ledger) : Action → Prop
  | .register _ _ => ∀ c ∈ l.state.registry, l.creations - l.serials c < 2 ^ 32 - 1
  | _ => True

instance (l : Ledger) : (i : Action) → Decidable (Spaced l i)
  | .register _ _ => inferInstanceAs (Decidable (∀ c ∈ l.state.registry, _))
  | .create .. | .join .. | .detach .. | .returns _ | .entry _ | .call _ | .joinFails .. | .reap =>
    isTrue trivial

/-- Every id leads to the block that it was taken from. -/
structure Resolved (l : Ledger) : Prop where
  distinct : ∀ c ∈ l.state.registry, ∀ k ∈ l.state.registry,
    (l.state.blocks c).registryId = (l.state.blocks k).registryId → c = k
  nonzero : ∀ c ∈ l.state.registry, (l.state.blocks c).registryId ≠ 0
  parameter : ∀ c, (l.state.blocks c).phase = .start →
    findThread l.state (l.state.blocks c).registryId = some c
  entered : ∀ c, entered (l.state.blocks c).phase = true → (l.state.blocks c).control = c
  messages : l.state.queue.map (findThread l.state) = l.senders.map some
  received : ∀ m, l.state.reaper = .received m → ∃ c, l.taken = some c ∧
    findThread l.state m = some c
  reaped : ∀ c, l.state.reaper = .waiting c ∨ (∃ ack, l.state.reaper = .deleting c ack) →
    l.taken = some c

/-- What the reaper has is what it took. -/
def Took (s : State) (taken : Option ControlId) : Prop :=
  match s.reaper with
  | .received m => ∃ c ∈ s.registry, taken = some c ∧ (s.blocks c).registryId = m
  | .waiting c | .deleting c _ => taken = some c
  | _ => True

/-- The id that comes after `n` others. -/
def idOf (n : Nat) : Nat := n % (2 ^ 32 - 1) + 1

theorem nextId_idOf (n : Nat) : nextId (idOf n) = idOf (n + 1) := by
  unfold nextId idOf
  split <;> omega

theorem idOf_ne {n m : Nat} (hlt : n < m) (hm : m - n < 2 ^ 32 - 1) : idOf n ≠ idOf m := by
  unfold idOf
  omega

structure Kept (l : Ledger) : Prop where
  good : Good l.state
  counter : l.state.nextRegistryId = idOf l.creations
  ids : ∀ c ∈ l.state.registry, (l.state.blocks c).registryId = idOf (l.serials c) ∧
    l.serials c < l.creations
  registered : ∀ c ∈ l.senders, c ∈ l.state.registry
  queue : l.state.queue = l.senders.map fun c => (l.state.blocks c).registryId
  took : Took l.state l.taken

section
variable {l : Ledger} {s' : State} {i : Action} {a : Agent} {c k : ControlId} {b : Block}

theorem Kept.idFree (h : Kept l) (hi : Spaced l i) : IdFree l.state i := by
  cases i with
  | register a c =>
    intro k hk
    obtain ⟨hid, hlt⟩ := h.ids k hk
    rw [hid, h.counter]
    exact idOf_ne hlt (hi k hk)
  | _ => trivial

theorem Kept.resolved (h : Kept l) : Resolved l where
  distinct := h.good.books.ids
  nonzero := fun c hc => by
    rw [(h.ids c hc).1]
    exact Nat.succ_ne_zero _
  parameter := fun c hp => h.good.books.findThread
    (h.good.books.registered_of_running (by simp [hp]) (Or.inl (by simp [hp])))
  entered := fun c => (h.good.sound c).control
  messages := by
    rw [h.queue, List.map_map]
    exact List.map_congr_left fun c hc => h.good.books.findThread (h.registered c hc)
  received := fun m hm => by
    have htook := h.took
    simp only [Took, hm] at htook
    obtain ⟨c, hc, ht, rfl⟩ := htook
    exact ⟨c, ht, h.good.books.findThread hc⟩
  reaped := fun c hc => by
    have htook := h.took
    rcases hc with hc | ⟨ack, hc⟩ <;> simpa only [Took, hc] using htook

theorem kept_effect (h : Kept l) (he : Effect l.state s' i c b) (hgood : Good s') :
    Kept { l with state := s', senders := l.senders ++ (message l.state i).toList } where
  good := hgood
  counter := he.counter ▸ h.counter
  ids := fun k hk => by
    change (s'.blocks k).registryId = idOf (l.serials k) ∧ l.serials k < l.creations
    rw [he.id_eq]
    exact h.ids k (he.registry ▸ hk)
  registered := fun k hk => by
    change k ∈ s'.registry
    rw [he.registry]
    rcases List.mem_append.mp hk with hk | hk
    · exact h.registered k hk
    · obtain ⟨rfl, hc⟩ := he.message_registered (Option.mem_toList.mp hk)
      exact hc
  queue := by
    simp only [he.id_eq, List.map_append]
    rw [← h.queue]
    rcases he.quiet with ⟨hmessage, hqueue, _⟩ | ⟨hmessage, _, hqueue⟩ <;> simp [hmessage, hqueue]
  took := by
    have htook := h.took
    unfold Took at htook ⊢
    simp only [he.reaper]
    cases hre : l.state.reaper <;> simp only [hre] at htook ⊢ <;> try exact htook
    simpa only [he.registry, he.id_eq] using htook

theorem kept_register (h : Kept l) (hgood : Good s')
    (hs : registerThread l.state a c = some s') :
    Kept { l with
      state := s'
      creations := l.creations + 1
      serials := Function.update l.serials c l.creations } := by
  unfold registerThread at hs
  split at hs
  · rename_i hguard
    simp only [Bool.and_eq_true, decide_eq_true_eq] at hguard
    cases hs
    have hne : ∀ k ∈ l.state.registry, k ≠ c := by
      rintro k hk rfl
      exact h.good.books.registered k hk hguard.2
    have hother : ∀ k ∈ l.state.registry, ∀ b, (l.state.set c b).blocks k = l.state.blocks k :=
      fun k hk b => set_other _ _ (hne k hk)
    refine ⟨hgood, ?_, fun k hk => ?_, fun k hk => ?_, ?_, ?_⟩
    · exact (congrArg nextId h.counter).trans (nextId_idOf _)
    · rcases List.mem_cons.mp hk with rfl | hk
      · refine ⟨?_, ?_⟩
        · simpa [State.setBusy] using h.counter
        · simp
      · obtain ⟨hid, hlt⟩ := h.ids k hk
        change ((l.state.set c _).blocks k).registryId = idOf (Function.update l.serials c l.creations k) ∧
          Function.update l.serials c l.creations k < l.creations + 1
        rw [hother k hk, Function.update_of_ne (hne k hk)]
        exact ⟨hid, Nat.lt_succ_of_lt hlt⟩
    · exact List.mem_cons_of_mem _ (h.registered k hk)
    · refine h.queue.trans (List.map_congr_left fun k hk => ?_)
      exact congrArg (·.registryId) (hother k (h.registered k hk) _).symm
    · have htook := h.took
      unfold Took at htook ⊢
      cases hre : l.state.reaper <;> simp only [hre, State.set, State.setBusy] at htook ⊢ <;>
        try exact htook
      obtain ⟨k, hk, ht, rfl⟩ := htook
      refine ⟨k, List.mem_cons_of_mem _ hk, ht, ?_⟩
      exact congrArg (·.registryId) (hother k hk _)
  · cases hs

theorem Kept.sent (h : Kept l) (hc : c ∈ l.state.registry)
    (hm : Announced l.state (l.state.blocks c).registryId) : (l.state.blocks c).sent = 1 := by
  obtain ⟨k, hk, hid, h1⟩ := hm
  rwa [← h.good.books.ids k hk c hc hid]

theorem kept_unregister (h : Kept l) (hgood : Good s') (hs : threadCreate l.state a false = some s') :
    Kept { l with state := s' } := by
  obtain ⟨c, -, hu, ⟨hcreated, -⟩ | ⟨-, rfl⟩⟩ := threadCreate_cases hs
  · cases hcreated
  have hnew : (l.state.blocks c).sent = 0 := by rw [(h.good.sound c).new_block hu]
  have hother : ∀ {k}, k ≠ c → (l.state.set c {}).blocks k = l.state.blocks k :=
    fun hk => set_other _ _ hk
  have hmem : ∀ {k}, k ∈ l.state.registry.erase c ↔ k ≠ c ∧ k ∈ l.state.registry :=
    h.good.books.nodup.mem_erase_iff
  have hsenders : ∀ k ∈ l.senders, k ≠ c := by
    rintro k hk rfl
    have hqueued : (l.state.blocks k).registryId ∈ l.state.queue := by
      rw [h.queue]
      exact List.mem_map_of_mem hk
    have h1 := h.sent (h.registered k hk) (h.good.books.messages _ hqueued)
    omega
  refine ⟨hgood, h.counter, fun k hk => ?_, fun k hk => hmem.mpr ⟨hsenders k hk, h.registered k hk⟩,
    ?_, ?_⟩
  · obtain ⟨hkc, hk⟩ := hmem.mp hk
    change ((l.state.set c {}).blocks k).registryId = _ ∧ _
    rw [hother hkc]
    exact h.ids k hk
  · refine h.queue.trans (List.map_congr_left fun k hk => ?_)
    exact congrArg (·.registryId) (hother (hsenders k hk)).symm
  · have htook := h.took
    have hr := h.good.books.reaping
    unfold Took at htook ⊢
    cases hre : l.state.reaper <;> rw [hre] at hr <;>
      simp only [hre, State.set, State.setBusy] at htook ⊢ <;> try exact htook
    obtain ⟨k, hk, ht, rfl⟩ := htook
    have hkc : k ≠ c := by
      rintro rfl
      have h1 := h.sent hk hr.2
      omega
    exact ⟨k, hmem.mpr ⟨hkc, hk⟩, ht, congrArg (·.registryId) (hother hkc)⟩

theorem kept_reap (h : Kept l) (hgood : Good s') (hs : reaperEntry l.state = some s') :
    Kept (if l.state.reaper = .receive then
      { l with state := s', senders := l.senders.tail, taken := l.senders.head? }
    else { l with state := s' }) := by
  have hr := h.good.books.reaping
  have htook := h.took
  unfold reaperEntry at hs
  unfold Took at htook
  cases hre : l.state.reaper <;> simp only [hre, if_true, reduceCtorEq, if_false] at hs hr htook ⊢
  case receive =>
    have hqueue := h.queue
    cases hsenders : l.senders with
    | nil =>
      simp only [hsenders, List.map_nil] at hqueue
      simp [hqueue] at hs
    | cons c senders =>
      simp only [hsenders, List.map_cons] at hqueue
      simp only [hqueue] at hs
      cases hs
      have hc : ∀ k ∈ c :: senders, k ∈ l.state.registry := hsenders ▸ h.registered
      exact ⟨hgood, h.counter, h.ids, fun k hk => hc k (List.mem_cons_of_mem _ hk), rfl,
        c, hc c List.mem_cons_self, rfl, rfl⟩
  case received m =>
    obtain ⟨c, hc, ht, rfl⟩ := htook
    rw [h.good.books.findThread hc] at hs
    cases hs
    exact ⟨hgood, h.counter, h.ids, h.registered, h.queue, ht⟩
  case waiting c =>
    split at hs
    · cases hs
      exact ⟨hgood, h.counter, h.ids, h.registered, h.queue, htook⟩
    · cases hs
  case deleting c ack =>
    cases hs
    refine ⟨hgood, h.counter, fun k hk => h.ids k (List.mem_of_mem_erase hk), fun k hk => ?_,
      h.queue, trivial⟩
    refine (List.mem_erase_of_ne ?_).mpr (h.registered k hk)
    rintro rfl
    refine hr.1.2.1 ?_
    rw [h.queue]
    exact List.mem_map_of_mem hk
  case acknowledging ack =>
    cases ack <;> cases hs <;>
      exact ⟨hgood, h.counter, h.ids, h.registered, h.queue, trivial⟩

theorem kept_step {l' : Ledger} (h : Kept l) (hi : Spaced l i) (hs : l.step i = some l') :
    Kept l' := by
  obtain ⟨s', hstep, rfl⟩ := Option.map_eq_some_iff.mp hs
  have hgood := good_step h.good (h.idFree hi) hstep
  cases step_kind h.good hstep with
  | register hregister => exact kept_register h hgood hregister
  | unregister hcreate => simpa [message] using kept_unregister h hgood hcreate
  | reap hreap => exact kept_reap h hgood hreap
  | effect he =>
    have hkept := kept_effect h he hgood
    cases i with
    | register a c =>
      have hregistry := he.registry
      simp only [ThreadLifecycle.step, registerThread] at hstep
      split at hstep <;> cases hstep
      exact absurd hregistry (List.cons_ne_self _ _)
    | reap =>
      have hreaper := he.reaper
      simp only
      split
      · rename_i hre
        simp only [ThreadLifecycle.step, reaperEntry, hre] at hstep
        split at hstep <;> cases hstep
        rw [hre] at hreaper
        cases hreaper
      · simpa [message] using hkept
    | _ => exact hkept

end

theorem kept_start : Kept .start := by
  refine ⟨good_initial, ?_, ?_, ?_, rfl, trivial⟩ <;> simp [Ledger.start, initial, idOf]

theorem ids_resolve {l : Ledger} (h : Runs.Reached Ledger.step Spaced .start l) : Resolved l :=
  (h.invariant kept_start fun _ _ _ => kept_step).resolved

/-- A creation fails before the one of a thread that is joined and reaped. -/
def createdAgain : List Action := [.register creator 0, .create creator false] ++ joinedLife

theorem ids_resolve_joined : ∃ l, Runs.Reached Ledger.step Spaced .start l ∧
    (l.state.blocks 0).usage = .joined ∧ (l.state.blocks 0).registryId = 2 ∧ Resolved l := by
  have hsome : (Runs.perform Ledger.step .start createdAgain).isSome = true := by decide +kernel
  obtain ⟨l, hl⟩ := Option.isSome_iff_exists.mp hsome
  have hreached := Runs.reached_of_perform (C := Spaced) hl (by decide +kernel)
  have hblock : (Runs.perform Ledger.step .start createdAgain).map (fun l =>
      ((l.state.blocks 0).usage, (l.state.blocks 0).registryId)) = some (.joined, 2) := by
    decide +kernel
  rw [hl, Option.map_some, Option.some.injEq, Prod.mk.injEq] at hblock
  exact ⟨l, hreached, hblock.1, hblock.2, ids_resolve hreached⟩

/-- Every run has its ledger. -/
theorem ledger_of_run {C : State → Action → Prop} {s : State}
    (h : Runs.Reached ThreadLifecycle.step C initial s) :
    ∃ l, Runs.Reached Ledger.step (fun l i => C l.state i) .start l ∧ l.state = s := by
  induction h with
  | start => exact ⟨_, .start, rfl⟩
  | @next s s' i _ hc hs ih =>
    obtain ⟨l, hl, rfl⟩ := ih
    refine ⟨_, hl.next hc (by rw [Ledger.step, hs]; rfl), ?_⟩
    cases i with
    | reap =>
      simp only
      split <;> rfl
    | _ => rfl

/-- After the counter has come around, two registered threads have the id 1. -/
theorem ids_collide : ∃ l, Runs.Reached Ledger.step (fun _ _ => True) .start l ∧ ¬ Resolved l := by
  obtain ⟨s, k, hs, h, hnext⟩ := idle_wrapped
  have hcreated := hs.trans (Runs.reached_of_perform (thread_created (h.unused k (Nat.le_refl k)) h.busy)
    (Runs.performs_always (fun _ _ => trivial) s))
  obtain ⟨l, hl, hstate⟩ := ledger_of_run hcreated
  refine ⟨l, hl, fun hr => ?_⟩
  have hk : 0 ≠ k := Nat.ne_of_lt h.positive
  have := hr.distinct 0 (by simp [hstate, h.registry]) k (by simp [hstate])
  rw [hstate] at this
  exact hk (this (by simp [set_other _ _ hk, h.zero, runner, hnext]))

end SimPLCity.RegistryIds
