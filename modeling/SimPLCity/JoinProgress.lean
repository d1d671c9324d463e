import SimPLCity.Reclamation
import Mathlib.Data.Fintype.EquivFin
import Mathlib.Data.Set.Finite.Lattice
import Mathlib.Order.WellFounded
import Mathlib.Order.Preorder.Finite

/-! Joins and the reaper: a thread that joins others from its exit destructors may leave the
reaper waiting for it while it waits for the reaper. Every run that stays clear of the schedules
that lead there makes progress: it is never stuck with an unfinished join. -/

namespace SimPLCity.JoinProgress
open ThreadLifecycle ControlBlocks BlockBooks BlockEffects Reclamation

theorem no_endless_chain {α : Type*} {r : α → α → Prop} {S : Set α} (hfinite : S.Finite)
    (hacyclic : ∀ x, ¬ Relation.TransGen r x x) (hnext : ∀ x ∈ S, ∃ y ∈ S, r x y) :
    S = ∅ := by
  by_contra hne
  obtain ⟨x, hx⟩ := Set.nonempty_iff_ne_empty.mpr hne
  have : Finite S := hfinite
  let below : S → S → Prop := fun y x => Relation.TransGen r x y
  have : IsTrans S below := ⟨fun _ _ _ hab hbc => hbc.trans hab⟩
  have : Std.Irrefl below := ⟨fun x => hacyclic x⟩
  obtain ⟨m, -, hm⟩ := (Finite.wellFounded_of_trans_of_irrefl below).has_min Set.univ ⟨⟨x, hx⟩, trivial⟩
  obtain ⟨y, hy, hr⟩ := hnext m m.2
  exact hm ⟨y, hy⟩ trivial (.single hr)

/-- No thread, no call in progress and not the reaper can take a step. -/
structure Stuck (s : State) : Prop where
  creates : ∀ a, threadCreate s a true = none
  returns : ∀ c, returns s c = none
  entry : ∀ c, threadEntry s c = none
  call : ∀ a, call s a = none
  reap : reaperEntry s = none

/-- The reaper does not wait for a thread that waits for the reaper, and no join is left in a
stuck state. -/
structure Progresses (s : State) : Prop where
  reaper : ∀ t c, s.reaper = .waiting t → (s.blocks t).phase = .exit →
    (s.blocks c).usage = .joining (.thread t) .acknowledge → 0 < s.acknowledgement (.thread t)
  joins : Stuck s → ∀ a c p, (s.blocks c).usage ≠ .joining a p

/-- The thread runs its exit destructors and its own message is sent. -/
def queuedExit (s : State) : Agent → Bool
  | .thread t => (s.blocks t).phase = .exit && (s.blocks t).sent = 1
  | .other _ => false

/-- The agent is in `thread_join` and has not queued the block. -/
def unsentJoin (s : State) (a : Agent) : Bool :=
  match s.busy a with
  | none => false
  | some c =>
    match (s.blocks c).usage with
    | .joining _ p => p ≠ .acknowledge
    | _ => false

/-- The agent is in the part of `thread_detach` that ends with a message. -/
def queuesDetached (s : State) (a : Agent) : Bool :=
  match s.busy a with
  | none => false
  | some c =>
    match (s.blocks c).usage with
    | .detaching _ p => queueing p
    | _ => false

/-- The agent is about to enter that part. -/
def marksFinished (s : State) (a : Agent) : Bool :=
  match s.busy a with
  | none => false
  | some c => (s.blocks c).usage = .detaching a .mark && (s.blocks c).finished

/-- The reaper has the message about the thread, which has not completed. -/
def Handled (s : State) (t : ControlId) : Prop :=
  t ∈ s.registry ∧ (s.reaper = .received (s.blocks t).registryId ∨ s.reaper = .waiting t)

/-- `thread_join` is called along `joins`, and not from the exit destructors of a thread whose own
message is sent. A join of the caller itself ends at once. -/
def JoinsEarly (joins : Agent → ControlId → Prop) (s : State) : Action → Prop
  | .join a c => joins a c ∧ (a = .thread c ∨ queuedExit s a = false)
  | _ => True

/-- No message is sent about a thread whose exit destructors are in a join without message. -/
def SendsLate (s : State) (i : Action) : Prop :=
  ∀ t ∈ message s i, (s.blocks t).phase = .exit → unsentJoin s (.thread t) = false

/-- The queue has room for what the exit destructors that the reaper waits for have to send. -/
def LeavesRoom (s : State) (i : Action) : Prop :=
  ∀ t ∈ s.registry, Handled s t → (s.blocks t).phase = .exit →
    (i = .call (.thread t) → marksFinished s (.thread t) = true →
      s.queue.length < cleanupQueueDepth) ∧
    (i ≠ .call (.thread t) → (message s i).isSome → queuesDetached s (.thread t) = true →
      s.queue.length + 1 < cleanupQueueDepth)

structure Safe (joins : Agent → ControlId → Prop) (s : State) (i : Action) : Prop where
  ids : IdFree s i
  early : JoinsEarly joins s i
  late : SendsLate s i
  room : LeavesRoom s i

/-- The messages that the reaper is not done with. -/
def pending (s : State) : List Nat :=
  (match s.reaper with
    | .received m => [m]
    | .waiting c | .deleting c _ => [(s.blocks c).registryId]
    | _ => []) ++ s.queue

/-- The message is pending, and none about an exiting thread `a` comes before it. -/
def Before (s : State) (a : Agent) (m : Nat) : Prop :=
  ∃ l₁ l₂, pending s = l₁ ++ m :: l₂ ∧
    ∀ t, a = .thread t → (s.blocks t).phase = .exit → (s.blocks t).registryId ∉ l₁

structure Orderly (joins : Agent → ControlId → Prop) (s : State) : Prop where
  finite : {c | (s.blocks c).phase ≠ .absent}.Finite
  room : s.queue.length ≤ cleanupQueueDepth
  joins : ∀ a c p, (s.blocks c).usage = .joining a p → joins a c ∧ a ≠ .thread c
  unsent : ∀ t c p, (s.blocks t).phase = .exit → (s.blocks c).usage = .joining (.thread t) p →
    p ≠ .acknowledge → (s.blocks t).sent = 0
  waits : ∀ a c, (s.blocks c).usage = .joining a .acknowledge →
    0 < s.acknowledgement a ∨ s.reaper = .acknowledging (some a) ∨
      c ∈ s.registry ∧ Before s a (s.blocks c).registryId
  detaches : ∀ t c p, Handled s t → (s.blocks t).phase = .exit →
    (s.blocks c).usage = .detaching (.thread t) p → queueing p = true →
      s.queue.length < cleanupQueueDepth

section
variable {s s' : State} {c k t : ControlId} {a : Agent} {b : Block} {i : Action}
  {joins : Agent → ControlId → Prop}

theorem Turn.joining_cases {u : Usage} {p : JoinStep} (h : Turn s i c u (.joining a p)) :
    (∃ q, u = .joining a q ∧ (q ≠ .acknowledge ↔ p ≠ .acknowledge)) ∨
      (i = .join a c ∧ a ≠ .thread c ∧ p ≠ .acknowledge) ∨
      u = .joining a .send ∧ p = .acknowledge := by
  cases h with
  | same h => exact Or.inl ⟨p, rfl, Iff.rfl⟩
  | join h hne => exact Or.inr (Or.inl ⟨h, hne, by simp⟩)
  | joining hp hq => exact Or.inl ⟨_, rfl, iff_of_true hp hq⟩
  | queued h => exact Or.inr (Or.inr ⟨rfl, rfl⟩)
  | «over» h => simp [inFlight] at h

theorem Turn.detaching_cases {u : Usage} {p : DetachStep} (h : Turn s i c u (.detaching a p))
    (hp : queueing p = true) :
    (∃ q, u = .detaching a q ∧ queueing q = true ∧ (i = .call a → q ≠ .send)) ∨
      i = .call a ∧ u = .detaching a .mark ∧ (s.blocks c).finished = true := by
  cases h with
  | same h => exact Or.inl ⟨p, rfl, hp, fun hi => absurd hi (h a)⟩
  | detach => simp [queueing] at hp
  | detaching hq h =>
    rcases h hp with h | ⟨hi, rfl, hf⟩
    · exact Or.inl ⟨_, rfl, h, fun _ => hq⟩
    · exact Or.inr ⟨hi, rfl, hf⟩
  | «over» h => simp [inFlight] at h

theorem busy_of_join (hg : Good s) {p : JoinStep} (hu : (s.blocks k).usage = .joining a p) :
    s.busy a = some k := (hg.calls.busy a k).mpr (by simp [hu, inFlight])

theorem busy_of_detach (hg : Good s) {p : DetachStep} (hu : (s.blocks k).usage = .detaching a p) :
    s.busy a = some k := (hg.calls.busy a k).mpr (by simp [hu, inFlight])

theorem sent_of_pending (hg : Good s) (hc : c ∈ s.registry)
    (hm : (s.blocks c).registryId ∈ pending s) : (s.blocks c).sent = 1 := by
  have hannounced : ∀ m, Announced s m → m = (s.blocks c).registryId → (s.blocks c).sent = 1 := by
    rintro m ⟨k, hk, rfl, h1⟩ heq
    rwa [← hg.books.ids k hk c hc heq]
  have htaken : ∀ k, Taken s k → (s.blocks c).registryId = (s.blocks k).registryId →
      (s.blocks c).sent = 1 := fun k hk heq => hannounced _ ⟨k, hk.1, rfl, hk.2.2⟩ heq.symm
  have hr := hg.books.reaping
  rcases List.mem_append.mp hm with hm | hm
  · cases hre : s.reaper <;> rw [hre] at hr <;> simp only [hre, List.mem_singleton] at hm
    case received m => exact hannounced m hr.2 hm.symm
    case waiting k => exact htaken k hr hm
    case deleting k ack => exact htaken k hr.1 hm
    all_goals cases hm
  · exact hannounced _ (hg.books.messages _ hm) rfl

theorem message_call (h : message s (.call a) = some c) : s.busy a = some c ∧
    ((s.blocks c).usage = .joining a .send ∨ (s.blocks c).usage = .detaching a .send) := by
  simpa [message, Option.filter_eq_some_iff] using h

section
variable (hg : Good s) (ho : Orderly joins s) (hsafe : Safe joins s i) (he : Effect s s' i c b)
include he

theorem usage_cases (k : ControlId) : k ≠ c ∧ (s'.blocks k).usage = (s.blocks k).usage ∨
    k = c ∧ Turn s i c (s.blocks c).usage (s'.blocks c).usage := by
  by_cases hk : k = c
  · exact Or.inr ⟨hk, by rw [he.self]; exact he.usage⟩
  · exact Or.inl ⟨hk, by rw [he.other hk]⟩

theorem joining_cases {p : JoinStep} (hu : (s'.blocks k).usage = .joining a p) :
    (∃ q, (s.blocks k).usage = .joining a q ∧ (q ≠ .acknowledge ↔ p ≠ .acknowledge)) ∨
      (i = .join a c ∧ k = c ∧ a ≠ .thread c ∧ p ≠ .acknowledge) ∨
      k = c ∧ (s.blocks c).usage = .joining a .send ∧ p = .acknowledge := by
  rcases usage_cases he k with ⟨_, hsame⟩ | ⟨rfl, hturn⟩
  · exact Or.inl ⟨p, hsame ▸ hu, Iff.rfl⟩
  · rw [hu] at hturn
    rcases Turn.joining_cases hturn with hq | ⟨hi, hne, hp⟩ | hs
    · exact Or.inl hq
    · exact Or.inr (Or.inl ⟨hi, rfl, hne, hp⟩)
    · exact Or.inr (Or.inr ⟨rfl, hs⟩)

theorem pending_grows : ∃ l, pending s' = pending s ++ l ∧
    (s'.queue = s.queue ++ [(s.blocks c).registryId] → l = [(s.blocks c).registryId]) := by
  have hheld : pending s' = pending { s with queue := s'.queue } := by
    unfold pending
    rw [he.reaper]
    cases s.reaper <;> simp [he.id_eq]
  rcases he.queue with hq | ⟨_, _, _, hq⟩ <;> rw [hheld, hq]
  · exact ⟨[], by simp [pending], by simp⟩
  · exact ⟨[(s.blocks c).registryId], by simp [pending], fun _ => rfl⟩

include hg

theorem phase_of_call (hb : s'.busy (.thread t) = some k) (hp : (s'.blocks t).phase = .exit) :
    (s.blocks t).phase = .exit := by
  by_cases ht : t = c
  · subst ht
    by_contra hne
    rw [he.self] at hp
    obtain ⟨hidle, husage⟩ := he.idle (hp ▸ Ne.symm hne) (by simp [hp])
    have hin : inFlight (s'.blocks k).usage = some (.thread t) := (he.calls.busy _ _).mp hb
    have hsame : (s'.blocks k).usage = (s.blocks k).usage := by
      by_cases hk : k = t
      · rw [hk, he.self, husage]
      · rw [he.other hk]
    rw [hsame, ← hg.calls.busy, hidle] at hin
    cases hin
  · rwa [he.other ht] at hp

include ho hsafe

theorem effect_unsent {p : JoinStep} (hp : (s'.blocks t).phase = .exit)
    (hu : (s'.blocks k).usage = .joining (.thread t) p) (hne : p ≠ .acknowledge) :
    (s'.blocks t).sent = 0 := by
  have hb : s'.busy (.thread t) = some k := (he.calls.busy _ _).mpr (by simp [hu, inFlight])
  have hp₀ := phase_of_call hg he hb hp
  rcases joining_cases he hu with ⟨q, hq, hiff⟩ | ⟨rfl, _, hother, _⟩ | ⟨_, _, hack⟩
  · have h0 := ho.unsent t k q hp₀ hq (hiff.mpr hne)
    by_cases ht : t = c
    · subst ht
      rw [he.self]
      rcases he.quiet with ⟨_, _, hsent⟩ | ⟨hmessage, _, _⟩
      · rw [hsent, h0]
      · have := hsafe.late t hmessage hp₀
        simp [unsentJoin, busy_of_join hg hq, hq, hiff.mpr hne] at this
    · rw [he.other ht, h0]
  · have hlate := hsafe.early.2.resolve_left hother
    have hle := (hg.sound t).sent_le
    simp only [queuedExit, hp₀, decide_true, Bool.true_and, decide_eq_false_iff_not] at hlate
    rw [he.other fun ht => hother (by rw [ht])]
    omega
  · exact absurd hack hne

omit hsafe in
theorem effect_waits (hu : (s'.blocks k).usage = .joining a .acknowledge) :
    0 < s'.acknowledgement a ∨ s'.reaper = .acknowledging (some a) ∨
      k ∈ s'.registry ∧ Before s' a (s'.blocks k).registryId := by
  have hb : s'.busy a = some k := (he.calls.busy _ _).mpr (by simp [hu, inFlight])
  obtain ⟨l, hpending, hl⟩ := pending_grows he
  rcases joining_cases he hu with ⟨q, hq, hiff⟩ | ⟨_, _, _, hne⟩ | ⟨rfl, hsend, _⟩
  · obtain rfl : q = .acknowledge := by simpa using hiff
    rcases ho.waits a k hq with hack | hre | ⟨hk, l₁, l₂, hl₁, hbefore⟩
    · rw [he.acks a k hq hu]
      exact Or.inl hack
    · rw [he.reaper]
      exact Or.inr (Or.inl hre)
    · refine Or.inr (Or.inr ⟨he.registry ▸ hk, l₁, l₂ ++ l, ?_, ?_⟩)
      · rw [hpending, hl₁, he.id_eq, List.append_assoc, List.cons_append]
      · rintro t rfl hp
        rw [he.id_eq]
        exact hbefore t rfl (phase_of_call hg he hb hp)
  · exact absurd rfl hne
  · rcases he.queue with hsame | ⟨_, _, hk, hqueue⟩
    · -- a message that is not sent by this step was not there before either
      have h0 := (hg.sound k).queued
      have h1 := he.sound.sentJoin (Or.inl (by rw [← he.self, hu]; rfl))
      have hle := (s.blocks k).cleanupQueued.toNat_le
      rcases he.quiet with ⟨_, _, hsent⟩ | ⟨_, _, hqueue⟩
      · simp only [hsend, willSend, Bool.toNat_true] at h0
        omega
      · simp [hsame] at hqueue
    · refine Or.inr (Or.inr ⟨he.registry ▸ hk, pending s, [], ?_, ?_⟩)
      · rw [hpending, hl hqueue, he.id_eq]
      · rintro t rfl hp hm
        have hp₀ := phase_of_call hg he hb hp
        have h0 := ho.unsent t k .send hp₀ hsend (by simp)
        have ht := hg.books.registered_of_running (c := t) (by simp [hp₀]) (Or.inl (by simp [hp₀]))
        rw [he.id_eq] at hm
        have := sent_of_pending hg ht hm
        omega

theorem effect_detaches {p : DetachStep} (hh : Handled s' t) (hp : (s'.blocks t).phase = .exit)
    (hu : (s'.blocks k).usage = .detaching (.thread t) p) (hq : queueing p = true) :
    s'.queue.length < cleanupQueueDepth := by
  have hb : s'.busy (.thread t) = some k := (he.calls.busy _ _).mpr (by simp [hu, inFlight])
  have hp₀ := phase_of_call hg he hb hp
  have hh₀ : Handled s t := by
    obtain ⟨ht, hre⟩ := hh
    rw [he.registry] at ht
    rw [he.reaper, he.id_eq] at hre
    exact ⟨ht, hre⟩
  obtain ⟨hmark, hfull⟩ := hsafe.room t hh₀.1 hh₀ hp₀
  -- where the detach was queueing before the step, the step is not the one that sends for it
  have hold : ∀ {q}, (s.blocks k).usage = .detaching (.thread t) q → queueing q = true →
      (i = .call (.thread t) → k = c → q ≠ .send) → s'.queue.length < cleanupQueueDepth := by
    intro q hu₀ hqueueing hother
    have hb₀ := busy_of_detach hg hu₀
    rcases he.quiet with ⟨_, hqueue, _⟩ | ⟨hmessage, _, hqueue⟩ <;> rw [hqueue]
    · exact ho.detaches t k q hh₀ hp₀ hu₀ hqueueing
    · rw [List.length_append]
      refine hfull ?_ (by simp [hmessage]) (by simp [queuesDetached, hb₀, hu₀, hqueueing])
      rintro rfl
      obtain ⟨hbc, hsend⟩ := message_call hmessage
      obtain rfl : k = c := Option.some.inj (hb₀.symm.trans hbc)
      rw [hu₀] at hsend
      rcases hsend with hsend | hsend <;> cases hsend
      exact hother rfl rfl rfl
  rcases usage_cases he k with ⟨hk, hsame⟩ | ⟨rfl, hturn⟩
  · exact hold (hsame ▸ hu) hq fun _ hkc => absurd hkc hk
  · rw [hu] at hturn
    rcases Turn.detaching_cases hturn hq with ⟨q, hu₀, hqueueing, hsend⟩ | ⟨rfl, hu₀, hf⟩
    · exact hold hu₀ hqueueing fun hi _ => hsend hi
    · have hb₀ := busy_of_detach hg hu₀
      rcases he.quiet with ⟨_, hqueue, _⟩ | ⟨hmessage, _, _⟩
      · rw [hqueue]
        exact hmark rfl (by simp [marksFinished, hb₀, hu₀, hf])
      · obtain ⟨_, hsend⟩ := message_call hmessage
        rw [hu₀] at hsend
        rcases hsend with hsend | hsend <;> cases hsend

theorem effect_orderly : Orderly joins s' where
  finite := ho.finite.subset fun k hk => by
    by_cases hkc : k = c
    · rw [hkc]
      exact he.present.1
    · change (s.blocks k).phase ≠ .absent
      rw [← he.other hkc]
      exact hk
  room := by
    rcases he.quiet with ⟨_, hqueue, _⟩ | ⟨_, hroom, hqueue⟩ <;> rw [hqueue]
    · exact ho.room
    · rw [List.length_append]
      exact hroom
  joins := fun a k p hu => by
    rcases joining_cases he hu with ⟨q, hq, _⟩ | ⟨rfl, rfl, hne, _⟩ | ⟨rfl, hsend, _⟩
    · exact ho.joins a k q hq
    · exact ⟨hsafe.early.1, hne⟩
    · exact ho.joins a k .send hsend
  unsent := fun t k p => effect_unsent hg ho hsafe he
  waits := fun a k => effect_waits hg ho he
  detaches := fun t k p => effect_detaches hg ho hsafe he

end

theorem Orderly.of_registry (hg : Good s) (ho : Orderly joins s)
    (hblocks : s'.blocks = Function.update s.blocks c b) (hexit : b.phase ≠ .exit)
    (husage : b.usage = .fresh ∨ ∃ a, b.usage = .creating a)
    (hqueue : s'.queue = s.queue) (hreaper : s'.reaper = s.reaper)
    (hack : s'.acknowledgement = s.acknowledgement) (hsent : (s.blocks c).sent = 0)
    (hregistry : ∀ k, k ≠ c → (k ∈ s'.registry ↔ k ∈ s.registry)) : Orderly joins s' := by
  have hself : s'.blocks c = b := by rw [hblocks, Function.update_self]
  have hsame : ∀ {k}, k ≠ c → s'.blocks k = s.blocks k := fun hk => by
    rw [hblocks, Function.update_of_ne hk]
  -- a handle in use is another block's, an exiting thread another thread
  have hused : ∀ {k u a}, (s'.blocks k).usage = u → inFlight u = some a → u ≠ .creating a →
      k ≠ c ∧ (s.blocks k).usage = u := by
    rintro k u a hu hin hne
    have hkc : k ≠ c := by
      rintro rfl
      rw [hself] at hu
      rcases husage with hb | ⟨x, hb⟩
      · rw [← hu, hb] at hin
        cases hin
      · rw [← hu, hb] at hin hne
        cases hin
        exact hne rfl
    exact ⟨hkc, by rwa [hsame hkc] at hu⟩
  have hexiting : ∀ {t}, (s'.blocks t).phase = .exit → t ≠ c := by
    rintro t ht rfl
    rw [hself] at ht
    exact hexit ht
  have hsentOther : ∀ {k}, (s.blocks k).sent = 1 → k ≠ c := by
    rintro k h1 rfl
    omega
  have hpending : pending s' = pending s := by
    have hr := hg.books.reaping
    unfold pending
    rw [hreaper, hqueue]
    cases hre : s.reaper <;> rw [hre] at hr <;> simp only
    case waiting k => rw [hsame (hsentOther hr.2.2)]
    case deleting k ack => rw [hsame (hsentOther hr.1.2.2)]
  have hhandled : ∀ {t}, t ≠ c → Handled s' t → Handled s t := by
    rintro t ht ⟨hmem, hre⟩
    rw [hreaper, hsame ht] at hre
    exact ⟨(hregistry t ht).mp hmem, hre⟩
  refine ⟨(ho.finite.insert c).subset fun k hk => ?_, hqueue ▸ ho.room, fun x k p hu => ?_,
    fun t k p hp hu hne => ?_, fun x k hu => ?_, fun t k p hh hp hu hq => ?_⟩
  · by_cases hkc : k = c
    · exact Or.inl hkc
    · refine Or.inr ?_
      change (s.blocks k).phase ≠ .absent
      rw [← hsame hkc]
      exact hk
  · exact ho.joins x k p (hused hu rfl (by simp)).2
  · have ht := hexiting hp
    rw [hsame ht] at hp ⊢
    exact ho.unsent t k p hp (hused hu rfl (by simp)).2 hne
  · obtain ⟨hkc, hu₀⟩ := hused hu rfl (by simp)
    rcases ho.waits x k hu₀ with h0 | hre | ⟨hk, l₁, l₂, hl, hbefore⟩
    · exact Or.inl (hack ▸ h0)
    · exact Or.inr (Or.inl (hreaper ▸ hre))
    · refine Or.inr (Or.inr ⟨(hregistry k hkc).mpr hk, l₁, l₂, ?_, fun t ht hp => ?_⟩)
      · rw [hpending, hl, hsame hkc]
      · have htc := hexiting hp
        rw [hsame htc] at hp ⊢
        exact hbefore t ht hp
  · have ht := hexiting hp
    rw [hqueue]
    exact ho.detaches t k p (hhandled ht hh) (hsame ht ▸ hp) (hused hu rfl (by simp)).2 hq

theorem register_orderly (hg : Good s) (ho : Orderly joins s) (hs : registerThread s a c = some s') :
    Orderly joins s' := by
  unfold registerThread at hs
  split at hs
  · rename_i hguard
    simp only [Bool.and_eq_true, decide_eq_true_eq] at hguard
    cases hs
    refine ho.of_registry (c := c) hg rfl (by simp) (.inr ⟨a, rfl⟩) rfl rfl rfl
      (by rw [(hg.sound c).absent hguard.2]) fun k hk => ?_
    exact List.mem_cons.trans (or_iff_right hk)
  · cases hs

theorem unregister_orderly (hg : Good s) (ho : Orderly joins s)
    (hs : threadCreate s a false = some s') : Orderly joins s' := by
  obtain ⟨c, -, hu, ⟨hcreated, -⟩ | ⟨-, rfl⟩⟩ := threadCreate_cases hs
  · cases hcreated
  · refine ho.of_registry (c := c) hg rfl (by simp) (.inl rfl) rfl rfl rfl
      (by rw [(hg.sound c).new_block hu]) fun k hk => ?_
    exact hg.books.nodup.mem_erase_iff.trans (and_iff_right hk)

theorem Orderly.of_reaper (ho : Orderly joins s) {r : Reaper} {q : List Nat}
    (hpending : pending { s with reaper := r, queue := q } = pending s)
    (hlength : q.length ≤ s.queue.length)
    (hack : ∀ ack, s.reaper ≠ .acknowledging (some ack))
    (hhandled : ∀ t, Handled { s with reaper := r, queue := q } t →
      Handled s t ∨ q.length < s.queue.length) :
    Orderly joins { s with reaper := r, queue := q } where
  finite := ho.finite
  room := Nat.le_trans hlength ho.room
  joins := ho.joins
  unsent := ho.unsent
  waits := fun x k hu => by
    rcases ho.waits x k hu with h | h | ⟨hk, l₁, l₂, hl, hbefore⟩
    · exact Or.inl h
    · exact absurd h (hack x)
    · exact Or.inr (Or.inr ⟨hk, l₁, l₂, hpending.trans hl, hbefore⟩)
  detaches := fun t k p hh hp hu hq => by
    rcases hhandled t hh with h | h
    · exact Nat.lt_of_le_of_lt hlength (ho.detaches t k p h hp hu hq)
    · exact Nat.lt_of_lt_of_le h ho.room

theorem reap_orderly (hg : Good s) (ho : Orderly joins s) (hs : reaperEntry s = some s') :
    Orderly joins s' := by
  have hr := hg.books.reaping
  unfold reaperEntry at hs
  cases hre : s.reaper <;> simp only [hre] at hs hr
  case receive =>
    cases hq : s.queue with
    | nil =>
      rw [hq] at hs
      cases hs
    | cons m queue =>
      simp only [hq] at hs
      cases hs
      exact ho.of_reaper (by simp [pending, hre, hq]) (by simp [hq]) (by simp [hre])
        fun t _ => Or.inr (by simp [hq])
  case received m =>
    obtain ⟨hm, k, hk, rfl, h1⟩ := hr
    rw [hg.books.findThread hk] at hs
    cases hs
    refine ho.of_reaper (q := s.queue) (by simp [pending, hre]) (Nat.le_refl _) (by simp [hre])
      fun t ht => Or.inl ⟨ht.1, Or.inl ?_⟩
    obtain rfl : k = t := by simpa using ht.2
    exact hre
  case waiting k =>
    split at hs
    · cases hs
      exact ho.of_reaper (q := s.queue) (by simp [pending, hre]) (Nat.le_refl _) (by simp [hre])
        fun t ht => by simp [Handled] at ht
    · cases hs
  case deleting k ack =>
    cases hs
    obtain ⟨hk, _, hack⟩ := hr
    refine ⟨ho.finite, ho.room, ho.joins, ho.unsent, fun x l hu => ?_, fun t l p hh => ?_⟩
    · by_cases hlk : l = k
      · subst hlk
        have hcleanup := (hg.sound l).ack x (by simp [show (s.blocks l).usage = _ from hu, acknowledger])
        exact Or.inr (Or.inl (by rw [← hack, hcleanup]))
      · rcases ho.waits x l hu with h | h | ⟨hl, l₁, l₂, hp, hbefore⟩
        · exact Or.inl h
        · rw [hre] at h
          cases h
        · refine Or.inr (Or.inr ⟨(List.mem_erase_of_ne hlk).mpr hl, ?_⟩)
          simp only [pending, hre, List.singleton_append] at hp
          cases l₁ with
          | nil =>
            simp only [List.nil_append, List.cons.injEq] at hp
            exact absurd (hg.books.ids l hl k hk.1 hp.1.symm) hlk
          | cons m l₁ =>
            simp only [List.cons_append, List.cons.injEq] at hp
            exact ⟨l₁, l₂, hp.2, fun t ht hpt hm => hbefore t ht hpt (List.mem_cons_of_mem _ hm)⟩
    · simp [Handled] at hh
  case acknowledging ack =>
    cases ack with
    | none =>
      cases hs
      exact ho.of_reaper (q := s.queue) (by simp [pending, hre]) (Nat.le_refl _) (by simp [hre])
        fun t ht => by simp [Handled] at ht
    | some x =>
      cases hs
      refine ⟨ho.finite, ho.room, ho.joins, ho.unsent, fun y l hu => ?_, fun t l p hh => ?_⟩
      · by_cases hyx : y = x
        · subst hyx
          exact Or.inl (by simp [State.setAcknowledgement])
        · rcases ho.waits y l hu with h | h | ⟨hl, l₁, l₂, hp, hbefore⟩
          · exact Or.inl (by simpa [State.setAcknowledgement, hyx] using h)
          · rw [hre] at h
            cases h
            exact absurd rfl hyx
          · simp only [pending, hre] at hp
            exact Or.inr (Or.inr ⟨hl, l₁, l₂, hp, hbefore⟩)
      · simp [Handled] at hh

theorem orderly_step (hg : Good s) (ho : Orderly joins s) (hsafe : Safe joins s i)
    (hs : step s i = some s') : Orderly joins s' := by
  cases step_kind hg hs with
  | register hs => exact register_orderly hg ho hs
  | unregister hs => exact unregister_orderly hg ho hs
  | reap hs => exact reap_orderly hg ho hs
  | effect he => exact effect_orderly hg ho hsafe he

theorem orderly_initial : Orderly joins initial := by
  constructor <;> simp [initial, Handled]

theorem Stuck.mutex_free (hstuck : Stuck s) (hg : Good s) (c : ControlId) :
    (s.blocks c).lifecycleMutex = none := by
  have hc := hg.sound c
  have hholder : holder (s.blocks c).usage = none := by
    by_contra hne
    obtain ⟨a, ha⟩ := Option.ne_none_iff_exists'.mp hne
    have hcall := hstuck.call a
    unfold ThreadLifecycle.call at hcall
    cases hu : (s.blocks c).usage <;> simp only [hu, holder, reduceCtorEq] at ha
    case joining x p =>
      cases p <;> simp only [reduceCtorEq, Option.some.injEq] at ha <;> subst ha <;>
        simp only [busy_of_join hg hu, hu, threadJoin, reduceCtorEq] at hcall
      split at hcall <;> cases hcall
    case detaching x p =>
      cases p <;> simp only [reduceCtorEq, Option.some.injEq] at ha <;> subst ha <;>
        simp only [busy_of_detach hg hu, hu, threadDetach, reduceCtorEq] at hcall
      split at hcall <;> cases hcall
  have hholds : holds (s.blocks c).phase = false := by
    have hentry := hstuck.entry c
    unfold threadEntry at hentry
    cases hp : (s.blocks c).phase <;> simp_all [holds]
  rw [hc.mutex, hholder, hholds]
  rfl

theorem Stuck.not_creating (hstuck : Stuck s) (hg : Good s) (c : ControlId) (a : Agent) :
    (s.blocks c).usage ≠ .creating a := by
  intro hu
  have hb : s.busy a = some c := (hg.calls.busy a c).mpr (by simp [hu, inFlight])
  have hcreate := hstuck.creates a
  simp [threadCreate, hb, hu] at hcreate

theorem Stuck.phase_cases (hstuck : Stuck s) (hg : Good s) (hp : (s.blocks c).phase ≠ .absent) :
    ((s.blocks c).phase = .body ∨ (s.blocks c).phase = .exit) ∧ s.busy (.thread c) ≠ none ∨
      (s.blocks c).phase = .send ∧ ¬ s.queue.length < cleanupQueueDepth ∨
      (s.blocks c).phase = .completed := by
  have hentry := hstuck.entry c
  have hreturns := hstuck.returns c
  unfold threadEntry at hentry
  unfold ThreadLifecycle.returns at hreturns
  cases hph : (s.blocks c).phase <;> simp only [hph, reduceCtorEq] at hentry hreturns ⊢
  case absent => exact absurd hph hp
  case registered => exact absurd hph ((hg.sound c).not_registered (hstuck.not_creating hg c))
  case start =>
    have hreg := hg.books.registered_of_running (c := c) (by simp [hph]) (Or.inl (by simp [hph]))
    simp [hg.books.findThread hreg] at hentry
  case lock => simp [hstuck.mutex_free hg] at hentry
  case send => simpa [enqueueCleanup] using hentry
  all_goals simp_all

theorem Stuck.call_cases (hstuck : Stuck s) (hg : Good s) (hb : s.busy a = some c) :
    ((s.blocks c).usage = .joining a .wait ∧ (s.blocks c).completion = 0) ∨
      ((s.blocks c).usage = .joining a .send ∨ (s.blocks c).usage = .detaching a .send) ∧
        ¬ s.queue.length < cleanupQueueDepth ∨
      (s.blocks c).usage = .joining a .acknowledge ∧ s.acknowledgement a = 0 := by
  have hflight := (hg.calls.busy a c).mp hb
  have hcall := hstuck.call a
  unfold ThreadLifecycle.call at hcall
  simp only [hb] at hcall
  cases hu : (s.blocks c).usage <;> simp only [hu, inFlight, reduceCtorEq, Option.some.injEq] at hflight
  case creating x => exact absurd hu (hstuck.not_creating hg c x)
  case joining x p =>
    subst hflight
    simp only [hu] at hcall
    unfold threadJoin at hcall
    cases p <;> simp only [hstuck.mutex_free hg] at hcall
    case wait => simpa using hcall
    case mark => split at hcall <;> cases hcall
    case send => simpa [enqueueCleanup] using hcall
    case acknowledge => simpa using hcall
    all_goals cases hcall
  case detaching x p =>
    subst hflight
    simp only [hu] at hcall
    unfold threadDetach at hcall
    cases p <;> simp only [hstuck.mutex_free hg] at hcall
    case mark => split at hcall <;> cases hcall
    case send => simpa [enqueueCleanup] using hcall
    all_goals cases hcall

/-- The reaper waits for no thread that waits for it: what it acknowledges comes first. -/
theorem reaper_acknowledges (hg : Good s) (ho : Orderly joins s) (hre : s.reaper = .waiting t)
    (hp : (s.blocks t).phase = .exit) (hu : (s.blocks c).usage = .joining (.thread t) .acknowledge) :
    0 < s.acknowledgement (.thread t) := by
  rcases ho.waits _ c hu with h | h | ⟨hc, l₁, l₂, hl, hbefore⟩
  · exact h
  · rw [hre] at h
    cases h
  · have hr := hg.books.reaping
    rw [hre] at hr
    simp only [pending, hre, List.singleton_append] at hl
    cases l₁ with
    | nil =>
      simp only [List.nil_append, List.cons.injEq] at hl
      obtain rfl := hg.books.ids t hr.1 c hc hl.1
      exact absurd rfl (ho.joins _ _ _ hu).2
    | cons m l₁ =>
      simp only [List.cons_append, List.cons.injEq] at hl
      exact absurd (hl.1 ▸ List.mem_cons_self) (hbefore t rfl hp)

/-- With nothing in the queue an unfinished join waits for a thread whose body is in a join. -/
theorem Stuck.waits_for_join (hstuck : Stuck s) (hg : Good s) (ho : Orderly joins s)
    (hre : s.reaper = .receive) (hq : s.queue = []) {p : JoinStep}
    (hu : (s.blocks c).usage = .joining a p) :
    p = .wait ∧ ∃ k, (s.blocks k).usage = .joining (.thread c) .wait := by
  have hblocked : ∀ {x l}, s.busy x = some l →
      (s.blocks l).usage = .joining x .wait ∧ (s.blocks l).completion = 0 := by
    intro x l hb
    rcases hstuck.call_cases hg hb with h | ⟨_, hfull⟩ | ⟨hack, h0⟩
    · exact h
    · simp [hq] at hfull
    · rcases ho.waits x l hack with h | h | ⟨_, l₁, l₂, hl, _⟩
      · omega
      · rw [hre] at h
        cases h
      · simp [pending, hre, hq] at hl
  obtain ⟨hwait, hcount⟩ := hblocked (busy_of_join hg hu)
  have hp : p = .wait := by simpa [hu] using hwait
  refine ⟨hp, ?_⟩
  have htoken := (hg.sound c).token (by simp [hwait])
  have hunposted : posted (s.blocks c).phase = false := by
    cases hpo : posted (s.blocks c).phase with
    | false => rfl
    | true => simp [hwait, hcount, hpo, taken] at htoken
  rcases hstuck.phase_cases hg ((hg.sound c).present (by simp [hwait])) with
    ⟨_, hbusy⟩ | ⟨hph, _⟩ | hph
  · obtain ⟨k, hk⟩ := Option.ne_none_iff_exists'.mp hbusy
    exact ⟨k, (hblocked hk).1⟩
  · simp [hph, posted] at hunposted
  · simp [hph, posted] at hunposted

theorem Stuck.reaper_idle (hstuck : Stuck s) (hg : Good s) (ho : Orderly joins s) :
    s.reaper = .receive ∧ s.queue = [] := by
  have hr := hg.books.reaping
  have hreap := hstuck.reap
  unfold reaperEntry at hreap
  cases hre : s.reaper <;> simp only [hre] at hr hreap
  case receive =>
    cases hq : s.queue with
    | nil => exact ⟨rfl, rfl⟩
    | cons m queue => simp [hq] at hreap
  case received m =>
    obtain ⟨_, k, hk, rfl, _⟩ := hr
    simp [hg.books.findThread hk] at hreap
  case waiting t =>
    exfalso
    obtain ⟨ht, _, h1⟩ := hr
    obtain ⟨_, hsends, hqueued⟩ := (hg.sound t).sent_once h1
    have hmarked : marked (s.blocks t).phase = true := by
      rw [← (hg.sound t).finished]
      exact (hg.sound t).sentMarked hqueued
    rcases hstuck.phase_cases hg (hg.books.registered t ht) with ⟨hp | hp, hb⟩ | ⟨hp, _⟩ | hp
    · simp [hp, marked] at hmarked
    · obtain ⟨k, hk⟩ := Option.ne_none_iff_exists'.mp hb
      rcases hstuck.call_cases hg hk with ⟨hu, _⟩ | ⟨hu | hu, hfull⟩ | ⟨hu, h0⟩
      · have := ho.unsent t k _ hp hu (by simp)
        omega
      · have := ho.unsent t k _ hp hu (by simp)
        omega
      · exact hfull (ho.detaches t k _ ⟨ht, Or.inr hre⟩ hp hu rfl)
      · have := reaper_acknowledges hg ho hre hp hu
        omega
    · simp [hp, sends] at hsends
    · simp [hp] at hreap
  case deleting k ack => cases hreap
  case acknowledging ack => cases ack <;> cases hreap

theorem progresses (hacyclic : ∀ c, ¬ Relation.TransGen (fun b k => joins (.thread b) k) c c)
    (hg : Good s) (ho : Orderly joins s) : Progresses s := by
  refine ⟨fun t c hre hp hu => reaper_acknowledges hg ho hre hp hu, fun hstuck a c p hu => ?_⟩
  obtain ⟨hre, hq⟩ := hstuck.reaper_idle hg ho
  have hempty := no_endless_chain (r := fun b k => joins (.thread b) k)
    (S := {k | ∃ x, (s.blocks k).usage = .joining x .wait})
    (ho.finite.subset fun k ⟨x, hk⟩ => (hg.sound k).present (by simp [hk])) hacyclic ?_
  · have hmem : c ∈ {k | ∃ x, (s.blocks k).usage = .joining x .wait} :=
      ⟨a, (hstuck.waits_for_join hg ho hre hq hu).1 ▸ hu⟩
    rw [hempty] at hmem
    exact hmem
  · rintro k ⟨x, hk⟩
    obtain ⟨_, l, hl⟩ := hstuck.waits_for_join hg ho hre hq hk
    exact ⟨l, ⟨_, hl⟩, (ho.joins _ _ _ hl).1⟩

end

theorem join_progresses {joins : Agent → ControlId → Prop} {s : State}
    (hacyclic : ∀ c, ¬ Relation.TransGen (fun b k => joins (.thread b) k) c c)
    (h : Runs.Reached step (Safe joins) initial s) : Progresses s := by
  obtain ⟨hg, ho⟩ := h.invariant (P := fun s => Good s ∧ Orderly joins s)
    ⟨good_initial, orderly_initial⟩ fun _ _ _ ⟨hg, ho⟩ hsafe hs =>
      ⟨good_step hg hsafe.ids hs, orderly_step hg ho hsafe hs⟩
  exact progresses hacyclic hg ho

instance (s : State) (t : ControlId) : Decidable (Handled s t) :=
  inferInstanceAs (Decidable (_ ∧ _))

instance {joins : Agent → ControlId → Prop} [∀ a c, Decidable (joins a c)] (s : State) (i : Action) :
    Decidable (Safe joins s i) :=
  have : Decidable (JoinsEarly joins s i) :=
    match i with
    | .join _ _ => inferInstanceAs (Decidable (_ ∧ _))
    | .register .. | .create .. | .detach .. | .returns _ | .entry _ | .call _ | .joinFails .. | .reap =>
      isTrue trivial
  have : Decidable (SendsLate s i) := inferInstanceAs (Decidable (∀ t ∈ message s i, _ → _))
  have : Decidable (LeavesRoom s i) := inferInstanceAs (Decidable (∀ t ∈ s.registry, _))
  decidable_of_iff (IdFree s i ∧ JoinsEarly joins s i ∧ SendsLate s i ∧ LeavesRoom s i)
    ⟨fun h => ⟨h.1, h.2.1, h.2.2.1, h.2.2.2⟩, fun h => ⟨h.ids, h.early, h.late, h.room⟩⟩

/-- Thread 0 is joined by its creator and joins thread 1. -/
def chain (a : Agent) (c : ControlId) : Prop :=
  a = creator ∧ c = 0 ∨ a = .thread 0 ∧ c = 1

instance (a : Agent) (c : ControlId) : Decidable (chain a c) :=
  inferInstanceAs (Decidable (_ ∨ _))

theorem chain_acyclic (c : ControlId) :
    ¬ Relation.TransGen (fun b k => chain (.thread b) k) c c := by
  have hlt : ∀ b k, Relation.TransGen (fun b k => chain (.thread b) k) b k → b < k := by
    intro b k h
    induction h with
    | single h =>
      obtain ⟨rfl, rfl⟩ : b = 0 ∧ _ = 1 := by simpa [chain] using h
      exact Nat.zero_lt_one
    | tail _ h ih =>
      obtain ⟨rfl, rfl⟩ : _ = 0 ∧ _ = 1 := by simpa [chain] using h
      exact absurd ih (Nat.not_lt_zero b)
  exact fun h => Nat.lt_irrefl c (hlt c c h)

def started : List Action :=
  [.register creator 0, .create creator true, .register creator 1, .create creator true, .entry 0,
    .entry 1, .returns 0, .entry 0, .entry 0, .entry 0, .entry 0]

def calls (a : Agent) (n : Nat) : List Action := List.replicate n (.call a)

/-- The exit destructors of thread 0 join thread 1 before the creator joins thread 0. -/
def exitJoinsFirst : List Action :=
  started ++ [.join (.thread 0) 1, .returns 1, .entry 1, .entry 1, .entry 1, .entry 1, .returns 1] ++
    calls (.thread 0) 5 ++ [.join creator 0] ++ calls creator 5 ++ List.replicate 5 .reap ++
    calls (.thread 0) 1 ++ [.returns 0] ++ List.replicate 5 .reap ++ calls creator 1

theorem join_progresses_exitJoinsFirst : ∃ s, Runs.Reached step (Safe chain) initial s ∧
    (s.blocks 0).usage = .joined ∧ (s.blocks 1).usage = .joined ∧ Progresses s := by
  have hsome : (Runs.perform step initial exitJoinsFirst).isSome = true := by decide +kernel
  obtain ⟨s, hs⟩ := Option.isSome_iff_exists.mp hsome
  have hreached := Runs.reached_of_perform (C := Safe chain) hs (by decide +kernel)
  have husage : (Runs.perform step initial exitJoinsFirst).map (fun s =>
      ((s.blocks 0).usage, (s.blocks 1).usage)) = some (.joined, .joined) := by decide +kernel
  rw [hs, Option.map_some, Option.some.injEq, Prod.mk.injEq] at husage
  exact ⟨s, hreached, husage.1, husage.2, join_progresses chain_acyclic hreached⟩

/-- The creator joins thread 0 first, and the exit destructors of thread 0 join thread 1 when the
reaper has the message about thread 0. -/
def exitJoinsLast : List Action :=
  started ++ [.join creator 0] ++ calls creator 5 ++ List.replicate 2 .reap ++
    [.join (.thread 0) 1, .returns 1, .entry 1, .entry 1, .entry 1, .entry 1, .returns 1] ++
    calls (.thread 0) 5

def FollowsIds (joins : Agent → ControlId → Prop) (s : State) (i : Action) : Prop :=
  IdFree s i ∧ match i with
    | .join a c => joins a c
    | _ => True

instance {joins : Agent → ControlId → Prop} [∀ a c, Decidable (joins a c)] (s : State) (i : Action) :
    Decidable (FollowsIds joins s i) :=
  match i with
  | .register a c => inferInstanceAs (Decidable (IdFree s (.register a c) ∧ True))
  | .join a c => inferInstanceAs (Decidable (True ∧ joins a c))
  | .create .. | .detach .. | .returns _ | .entry _ | .call _ | .joinFails .. | .reap =>
    inferInstanceAs (Decidable (True ∧ True))

/-- The reaper waits for thread 0, which waits for the reaper, although no joins form a cycle. -/
theorem join_deadlocks : (∀ c, ¬ Relation.TransGen (fun b k => chain (.thread b) k) c c) ∧
    ∃ s, Runs.Reached step (FollowsIds chain) initial s ∧ ¬ Progresses s := by
  refine ⟨chain_acyclic, ?_⟩
  have hsome : (Runs.perform step initial exitJoinsLast).isSome = true := by decide +kernel
  obtain ⟨s, hs⟩ := Option.isSome_iff_exists.mp hsome
  have hstate : (Runs.perform step initial exitJoinsLast).map (fun s =>
      (s.reaper, (s.blocks 0).phase, (s.blocks 1).usage, s.acknowledgement (.thread 0))) =
      some (.waiting 0, .exit, .joining (.thread 0) .acknowledge, 0) := by decide +kernel
  rw [hs, Option.map_some, Option.some.injEq, Prod.mk.injEq, Prod.mk.injEq, Prod.mk.injEq] at hstate
  obtain ⟨hre, hp, hu, h0⟩ := hstate
  refine ⟨s, Runs.reached_of_perform hs (by decide +kernel), fun h => ?_⟩
  have := h.reaper 0 1 hre hp hu
  omega

end SimPLCity.JoinProgress
