import SimPLCity.ControlBlocks

/-! The registry, the cleanup queue, the reaper and the calls in progress: how they fit together
with the control blocks, and that creating a thread and the steps of the reaper keep that. -/

namespace SimPLCity.BlockBooks
open ThreadLifecycle ControlBlocks

/-- An agent's join or detach and the handle it is about. -/
structure Calls (s : State) : Prop where
  busy : ∀ a c, s.busy a = some c ↔ inFlight (s.blocks c).usage = some a
  running : ∀ t, s.busy (.thread t) ≠ none →
    (s.blocks t).phase = .body ∨ (s.blocks t).phase = .exit

/-- A message in the queue is about a registered block. -/
def Announced (s : State) (message : Nat) : Prop :=
  ∃ c ∈ s.registry, (s.blocks c).registryId = message ∧ (s.blocks c).sent = 1

/-- The reaper has the block's message. -/
def Taken (s : State) (c : ControlId) : Prop :=
  c ∈ s.registry ∧ (s.blocks c).registryId ∉ s.queue ∧ (s.blocks c).sent = 1

def Reaping (s : State) : Reaper → Prop
  | .receive => True
  | .received message => message ∉ s.queue ∧ Announced s message
  | .waiting c => Taken s c
  | .deleting c ack =>
    Taken s c ∧ (s.blocks c).phase = .completed ∧ (s.blocks c).cleanupAck = ack
  | .acknowledging ack => ∀ a, ack = some a →
    s.acknowledgement a = 0 ∧ ∃ c, (s.blocks c).usage = .joining a .acknowledge ∧ c ∉ s.registry

/-- Registry, queue, reaper and acknowledgements fit together. -/
structure Books (s : State) : Prop where
  nodup : s.registry.Nodup
  ids : ∀ c ∈ s.registry, ∀ k ∈ s.registry,
    (s.blocks c).registryId = (s.blocks k).registryId → c = k
  registered : ∀ c ∈ s.registry, (s.blocks c).phase ≠ .absent
  freed : ∀ c, (s.blocks c).phase ≠ .absent → c ∉ s.registry →
    (s.blocks c).phase = .completed ∧ (s.blocks c).sent = 1
  messages : ∀ m ∈ s.queue, Announced s m
  queue : s.queue.Nodup
  reaping : Reaping s s.reaper
  joined : ∀ c, (s.blocks c).usage = .joined → c ∉ s.registry
  acked : ∀ a c, (s.blocks c).usage = .joining a .acknowledge → 0 < s.acknowledgement a →
    c ∉ s.registry
  unacked : ∀ a c, prepared (s.blocks c).usage = some a → s.acknowledgement a = 0

structure Good (s : State) : Prop where
  sound : ∀ c, Sound c (s.blocks c)
  calls : Calls s
  books : Books s

section
variable {s s' : State} {c k t : ControlId} {a : Agent} {b : Block}

@[simp] theorem set_self (s : State) (c : ControlId) (b : Block) : (s.set c b).blocks c = b :=
  Function.update_self ..

theorem set_other (s : State) (b : Block) (h : k ≠ c) : (s.set c b).blocks k = s.blocks k :=
  Function.update_of_ne h ..

@[simp] theorem set_set (s : State) (c : ControlId) (b b' : Block) :
    (s.set c b).set c b' = s.set c b' := by simp [State.set]

theorem sound_set (h : ∀ k, Sound k (s.blocks k)) (hb : Sound c b) (k : ControlId) :
    Sound k ((s.set c b).blocks k) := by
  by_cases hk : k = c
  · subst hk
    simpa using hb
  · rw [set_other s b hk]
    exact h k

theorem Calls.of_same (h : Calls s) (hbusy : s'.busy = s.busy)
    (husage : ∀ k, inFlight (s'.blocks k).usage = inFlight (s.blocks k).usage)
    (hphase : ∀ t, s.busy (.thread t) ≠ none → (s'.blocks t).phase = (s.blocks t).phase) :
    Calls s' := by
  refine ⟨fun a k => ?_, fun t ht => ?_⟩
  · rw [hbusy, husage]
    exact h.busy a k
  · rw [hbusy] at ht
    rw [hphase t ht]
    exact h.running t ht

theorem Calls.set (h : Calls s) (husage : inFlight b.usage = inFlight (s.blocks c).usage)
    (hphase : s.busy (.thread c) ≠ none → b.phase = (s.blocks c).phase) : Calls (s.set c b) := by
  refine h.of_same rfl (fun k => ?_) fun t ht => ?_
  · by_cases hk : k = c
    · subst hk
      simpa using husage
    · rw [set_other s b hk]
  · by_cases hk : t = c
    · subst hk
      simpa using hphase ht
    · rw [set_other s b hk]

theorem Calls.finish (h : Calls s) (hc : inFlight (s.blocks c).usage = some a)
    (husage : inFlight b.usage = none)
    (hphase : (s.blocks c).phase = .body ∨ (s.blocks c).phase = .exit →
      b.phase = (s.blocks c).phase) : Calls ((s.set c b).setBusy a none) := by
  refine ⟨fun x k => ?_, fun t ht => ?_⟩
  · by_cases hx : x = a
    · subst hx
      by_cases hk : k = c
      · subst hk
        simp [State.setBusy, husage]
      · have hnot : ¬ inFlight (s.blocks k).usage = some x := fun hin =>
          hk (Option.some.inj (((h.busy x k).mpr hin).symm.trans ((h.busy x c).mpr hc)))
        simp only [State.setBusy, Function.update_self, set_other s b hk, hnot, iff_false]
        simp
    · simp only [State.setBusy, Function.update_of_ne hx]
      by_cases hk : k = c
      · subst hk
        rw [set_self, husage]
        change s.busy x = some k ↔ _
        rw [h.busy, hc]
        simp [Ne.symm hx]
      · rw [set_other s b hk]
        exact h.busy x k
  · have ht' : s.busy (.thread t) ≠ none := by
      by_cases hx : Agent.thread t = a
      · subst hx
        simp [State.setBusy] at ht
      · simpa [State.setBusy, State.set, hx] using ht
    have hrunning := h.running t ht'
    have hsame : ((s.set c b).blocks t).phase = (s.blocks t).phase := by
      by_cases hk : t = c
      · subst hk
        simpa using hphase hrunning
      · rw [set_other s b hk]
    change ((s.set c b).blocks t).phase = .body ∨ ((s.set c b).blocks t).phase = .exit
    rwa [hsame]

theorem Calls.begin (h : Calls s) (ha : s.inUserCode a = true)
    (hc : inFlight (s.blocks c).usage = none) (husage : inFlight b.usage = some a)
    (hphase : (s.blocks c).phase = .body ∨ (s.blocks c).phase = .exit →
      b.phase = (s.blocks c).phase) : Calls ((s.set c b).setBusy a c) := by
  have hidle : s.busy a = none := by cases a <;> simp_all [State.inUserCode]
  refine ⟨fun x k => ?_, fun t ht => ?_⟩
  · by_cases hx : x = a
    · subst hx
      by_cases hk : k = c
      · subst hk
        simp [State.setBusy, husage]
      · have hnot : ¬ inFlight (s.blocks k).usage = some x := fun hin => by
          simpa [hidle] using (h.busy x k).mpr hin
        simp only [State.setBusy, Function.update_self, set_other s b hk, hnot, iff_false]
        simp [Ne.symm hk]
    · simp only [State.setBusy, Function.update_of_ne hx]
      by_cases hk : k = c
      · subst hk
        rw [set_self, husage]
        change s.busy x = some k ↔ _
        rw [h.busy, hc]
        simp [Ne.symm hx]
      · rw [set_other s b hk]
        exact h.busy x k
  · have hrunning : (s.blocks t).phase = .body ∨ (s.blocks t).phase = .exit := by
      by_cases hx : Agent.thread t = a
      · subst hx
        simp only [State.inUserCode, Bool.and_eq_true, Bool.or_eq_true, decide_eq_true_eq] at ha
        exact ha.1
      · exact h.running t (by simpa [State.setBusy, State.set, hx] using ht)
    have hsame : ((s.set c b).blocks t).phase = (s.blocks t).phase := by
      by_cases hk : t = c
      · subst hk
        simpa using hphase hrunning
      · rw [set_other s b hk]
    change ((s.set c b).blocks t).phase = .body ∨ ((s.set c b).blocks t).phase = .exit
    rwa [hsame]

theorem Calls.unique (h : Calls s) (hc : inFlight (s.blocks c).usage = some a)
    (hk : inFlight (s.blocks k).usage = some a) : c = k :=
  Option.some.inj (((h.busy a c).mpr hc).symm.trans ((h.busy a k).mpr hk))

theorem inFlight_of_prepared {u : Usage} (h : prepared u = some a) : inFlight u = some a := by
  cases u with
  | joining x step => cases step <;> simp_all [prepared, inFlight]
  | _ => simp [prepared] at h

/-- A step that changes block `c` to `b`, and may put its message into the queue. -/
structure Framed (s s' : State) (c : ControlId) (b : Block) : Prop where
  blocks : s'.blocks = Function.update s.blocks c b
  registry : s'.registry = s.registry
  reaper : s'.reaper = s.reaper
  queue : s'.queue = s.queue ∨ (s.blocks c).sent = 0 ∧ b.sent = 1 ∧ c ∈ s.registry ∧
    s'.queue = s.queue ++ [(s.blocks c).registryId]
  registryId : b.registryId = (s.blocks c).registryId
  sent : (s.blocks c).sent = 1 → b.sent = 1 ∧ b.cleanupAck = (s.blocks c).cleanupAck
  present : (s.blocks c).phase ≠ .absent ∧ b.phase ≠ .absent
  completed : (s.blocks c).phase = .completed → b.phase = .completed
  waits : ∀ a, b.usage = .joining a .acknowledge →
    (s.blocks c).usage = .joining a .acknowledge ∨ s'.acknowledgement a = 0
  waited : ∀ a, (s.blocks c).usage = .joining a .acknowledge →
    b.usage = .joining a .acknowledge ∨ 0 < s.acknowledgement a
  joined : b.usage = .joined → (s.blocks c).usage = .joined ∨ c ∉ s.registry
  acks : ∀ a k, (s.blocks k).usage = .joining a .acknowledge →
    (s'.blocks k).usage = .joining a .acknowledge → s'.acknowledgement a = s.acknowledgement a
  unacked : ∀ a k, prepared (s'.blocks k).usage = some a → s'.acknowledgement a = 0

namespace Framed
variable (hf : Framed s s' c b)
include hf

theorem self : s'.blocks c = b := by rw [hf.blocks, Function.update_self]

theorem other (hk : k ≠ c) : s'.blocks k = s.blocks k := by
  rw [hf.blocks, Function.update_of_ne hk]

theorem id_eq (k : ControlId) : (s'.blocks k).registryId = (s.blocks k).registryId := by
  by_cases hk : k = c
  · rw [hk, hf.self, hf.registryId]
  · rw [hf.other hk]

theorem sent_kept (h1 : (s.blocks k).sent = 1) : (s'.blocks k).sent = 1 := by
  by_cases hk : k = c
  · subst hk
    rw [hf.self]
    exact (hf.sent h1).1
  · rwa [hf.other hk]

theorem present_before (hp : (s'.blocks k).phase ≠ .absent) : (s.blocks k).phase ≠ .absent := by
  by_cases hk : k = c
  · rw [hk]
    exact hf.present.1
  · rwa [hf.other hk] at hp

theorem present_after (hp : (s.blocks k).phase ≠ .absent) : (s'.blocks k).phase ≠ .absent := by
  by_cases hk : k = c
  · rw [hk, hf.self]
    exact hf.present.2
  · rwa [hf.other hk]

theorem completed_kept (hp : (s.blocks k).phase = .completed) :
    (s'.blocks k).phase = .completed := by
  by_cases hk : k = c
  · subst hk
    rw [hf.self]
    exact hf.completed hp
  · rwa [hf.other hk]

theorem announced {m : Nat} (h : Announced s m) : Announced s' m := by
  obtain ⟨k, hk, hm, h1⟩ := h
  exact ⟨k, hf.registry ▸ hk, (hf.id_eq k).trans hm, hf.sent_kept h1⟩

theorem not_queued (h : Books s) {m : Nat} (hm : m ∉ s.queue) (ha : Announced s m) :
    m ∉ s'.queue := by
  obtain ⟨k, hk, rfl, h1⟩ := ha
  rcases hf.queue with hq | ⟨h0, _, hc, hq⟩ <;> rw [hq]
  · exact hm
  · simp only [List.mem_append, List.mem_singleton, not_or]
    refine ⟨hm, fun heq => ?_⟩
    obtain rfl := h.ids k hk c hc heq
    omega

theorem taken (h : Books s) (ht : Taken s k) : Taken s' k := by
  obtain ⟨hk, hm, h1⟩ := ht
  refine ⟨hf.registry ▸ hk, ?_, hf.sent_kept h1⟩
  rw [hf.id_eq]
  exact hf.not_queued h hm ⟨k, hk, rfl, h1⟩

theorem reaping (h : Books s) : Reaping s' s'.reaper := by
  rw [hf.reaper]
  have hr := h.reaping
  cases hre : s.reaper <;> rw [hre] at hr
  case receive => trivial
  case received m => exact ⟨hf.not_queued h hr.1 hr.2, hf.announced hr.2⟩
  case waiting k => exact hf.taken h hr
  case deleting k ack =>
    obtain ⟨ht, hcomp, hack⟩ := hr
    refine ⟨hf.taken h ht, hf.completed_kept hcomp, ?_⟩
    by_cases hk : k = c
    · subst hk
      rw [hf.self, (hf.sent ht.2.2).2, hack]
    · rw [hf.other hk, hack]
  case acknowledging ack =>
    intro x hx
    obtain ⟨h0, k, hk, hkr⟩ := hr x hx
    have hk' : (s'.blocks k).usage = .joining x .acknowledge := by
      by_cases hkc : k = c
      · subst hkc
        rw [hf.self]
        exact (hf.waited x hk).resolve_right (by omega)
      · rwa [hf.other hkc]
    exact ⟨(hf.acks x k hk hk').trans h0, k, hk', hf.registry ▸ hkr⟩

theorem books (h : Books s) : Books s' := by
  refine ⟨hf.registry ▸ h.nodup, fun k hk l hl heq => ?_, fun k hk => ?_, fun k hp hk => ?_,
    fun m hm => ?_, ?_, hf.reaping h, fun k hk => ?_, fun x k hk hx => ?_, hf.unacked⟩
  · rw [hf.registry] at hk hl
    rw [hf.id_eq, hf.id_eq] at heq
    exact h.ids k hk l hl heq
  · rw [hf.registry] at hk
    exact hf.present_after (h.registered k hk)
  · rw [hf.registry] at hk
    obtain ⟨hcomp, h1⟩ := h.freed k (hf.present_before hp) hk
    exact ⟨hf.completed_kept hcomp, hf.sent_kept h1⟩
  · rcases hf.queue with hq | ⟨_, h1, hc, hq⟩ <;> rw [hq] at hm
    · exact hf.announced (h.messages m hm)
    · rcases List.mem_append.mp hm with hm | hm
      · exact hf.announced (h.messages m hm)
      · refine ⟨c, hf.registry ▸ hc, ?_, by rw [hf.self, h1]⟩
        rw [hf.id_eq, List.mem_singleton.mp hm]
  · rcases hf.queue with hq | ⟨h0, _, hc, hq⟩ <;> rw [hq]
    · exact h.queue
    · refine List.nodup_append.mpr ⟨h.queue, by simp, fun m hm l hl => ?_⟩
      rintro rfl
      obtain ⟨k, hk, hid, h1⟩ := h.messages m hm
      obtain rfl := h.ids k hk c hc (hid.trans (List.mem_singleton.mp hl))
      omega
  · rw [hf.registry]
    by_cases hkc : k = c
    · subst hkc
      rw [hf.self] at hk
      rcases hf.joined hk with hold | hnot
      · exact h.joined k hold
      · exact hnot
    · rw [hf.other hkc] at hk
      exact h.joined k hk
  · rw [hf.registry]
    have hold : (s.blocks k).usage = .joining x .acknowledge := by
      by_cases hkc : k = c
      · subst hkc
        have hk' := hk
        rw [hf.self] at hk'
        exact (hf.waits x hk').resolve_right (by omega)
      · rwa [hf.other hkc] at hk
    rw [hf.acks x k hold hk] at hx
    exact h.acked x k hold hx

end Framed

theorem Framed.steady (h : Books s) (hblocks : s'.blocks = Function.update s.blocks c b)
    (hregistry : s'.registry = s.registry) (hreaper : s'.reaper = s.reaper)
    (hqueue : s'.queue = s.queue) (hack : s'.acknowledgement = s.acknowledgement)
    (hid : b.registryId = (s.blocks c).registryId)
    (hsent : b.sent = (s.blocks c).sent)
    (hcleanup : (s.blocks c).sent = 1 → b.cleanupAck = (s.blocks c).cleanupAck)
    (hpresent : (s.blocks c).phase ≠ .absent ∧ b.phase ≠ .absent)
    (hcompleted : (s.blocks c).phase = .completed → b.phase = .completed)
    (hwaits : ∀ a, b.usage = .joining a .acknowledge ↔ (s.blocks c).usage = .joining a .acknowledge)
    (hjoined : b.usage = .joined → (s.blocks c).usage = .joined)
    (hprepared : ∀ a, prepared b.usage = some a → prepared (s.blocks c).usage = some a) :
    Framed s s' c b where
  blocks := hblocks
  registry := hregistry
  reaper := hreaper
  queue := Or.inl hqueue
  registryId := hid
  sent := fun h1 => ⟨hsent.trans h1, hcleanup h1⟩
  present := hpresent
  completed := hcompleted
  waits := fun a ha => Or.inl ((hwaits a).mp ha)
  waited := fun a ha => Or.inl ((hwaits a).mpr ha)
  joined := fun hj => Or.inl (hjoined hj)
  acks := fun a k _ _ => by rw [hack]
  unacked := fun a k hk => by
    rw [hack]
    by_cases hkc : k = c
    · subst hkc
      rw [hblocks, Function.update_self] at hk
      exact h.unacked a k (hprepared a hk)
    · rw [hblocks, Function.update_of_ne hkc] at hk
      exact h.unacked a k hk

theorem Good.of_frame (h : Good s) (hf : Framed s s' c b) (hsound : Sound c b)
    (hcalls : Calls s') : Good s' := by
  refine ⟨fun k => ?_, hcalls, hf.books h.books⟩
  have := sound_set h.sound hsound k
  rwa [State.set, ← hf.blocks] at this

theorem Books.registered_of_running (h : Books s) (hp : (s.blocks c).phase ≠ .absent)
    (hc : (s.blocks c).phase ≠ .completed ∨ (s.blocks c).sent ≠ 1) : c ∈ s.registry := by
  by_contra hno
  obtain ⟨hcomp, h1⟩ := h.freed c hp hno
  rcases hc with hc | hc
  · exact hc hcomp
  · exact hc h1

theorem Books.findThread (h : Books s) (hc : c ∈ s.registry) :
    findThread s (s.blocks c).registryId = some c := by
  unfold ThreadLifecycle.findThread
  cases hf : s.registry.find? fun k => (s.blocks k).registryId = (s.blocks c).registryId with
  | none =>
    have := List.find?_eq_none.mp hf c hc
    simp at this
  | some k =>
    have hk := List.find?_some hf
    simp only [decide_eq_true_eq] at hk
    rw [h.ids k (List.mem_of_find?_eq_some hf) c hc hk]

/-- The counter of registry ids is at no id that is in use. -/
def FreshId (s : State) : Prop := ∀ c ∈ s.registry, (s.blocks c).registryId ≠ s.nextRegistryId

theorem Reaping.of_registry {r : Reaper} (h : Reaping s r) (hqueue : s'.queue = s.queue)
    (hack : s'.acknowledgement = s.acknowledgement)
    (hblocks : ∀ k ∈ s.registry, (s.blocks k).sent = 1 → k ∈ s'.registry ∧ s'.blocks k = s.blocks k)
    (hwaiting : ∀ a k, (s.blocks k).usage = .joining a .acknowledge → k ∉ s.registry →
      s'.blocks k = s.blocks k ∧ k ∉ s'.registry) : Reaping s' r := by
  have hannounced : ∀ m, Announced s m → Announced s' m := by
    rintro m ⟨k, hk, hm, h1⟩
    obtain ⟨hk', hsame⟩ := hblocks k hk h1
    exact ⟨k, hk', by rw [hsame, hm], by rw [hsame, h1]⟩
  have htaken : ∀ k, Taken s k → Taken s' k ∧ s'.blocks k = s.blocks k := by
    rintro k ⟨hk, hm, h1⟩
    obtain ⟨hk', hsame⟩ := hblocks k hk h1
    exact ⟨⟨hk', by rwa [hsame, hqueue], by rw [hsame, h1]⟩, hsame⟩
  cases r with
  | receive => trivial
  | received m => exact ⟨hqueue ▸ h.1, hannounced m h.2⟩
  | waiting k => exact (htaken k h).1
  | deleting k ack =>
    obtain ⟨ht, hsame⟩ := htaken k h.1
    exact ⟨ht, by rw [hsame]; exact h.2⟩
  | acknowledging ack =>
    intro a ha
    obtain ⟨h0, k, hk, hkr⟩ := h a ha
    obtain ⟨hsame, hkr'⟩ := hwaiting a k hk hkr
    exact ⟨by rw [hack, h0], k, by rw [hsame, hk], hkr'⟩

theorem Books.register (h : Books s) (hid : FreshId s) (hdef : s.blocks c = {})
    (hblocks : s'.blocks = Function.update s.blocks c b) (hb : b.registryId = s.nextRegistryId)
    (hp : b.phase = .registered) (hu : b.usage = .creating a) (hregistry : s'.registry = c :: s.registry)
    (hqueue : s'.queue = s.queue) (hreaper : s'.reaper = s.reaper)
    (hack : s'.acknowledgement = s.acknowledgement) : Books s' := by
  have hnot : c ∉ s.registry := fun hc => h.registered c hc (by rw [hdef])
  have hself : s'.blocks c = b := by rw [hblocks, Function.update_self]
  have hsame : ∀ {k}, k ≠ c → s'.blocks k = s.blocks k := fun hk => by
    rw [hblocks, Function.update_of_ne hk]
  have hne : ∀ k ∈ s.registry, k ≠ c := by
    rintro k hk rfl
    exact hnot hk
  -- a block found by its usage is another one
  have hother : ∀ {k u}, (s'.blocks k).usage = u → u ≠ .creating a →
      k ≠ c ∧ (s.blocks k).usage = u := by
    rintro k u hk hx
    have hkc : k ≠ c := by
      rintro rfl
      rw [hself, hu] at hk
      exact hx hk.symm
    exact ⟨hkc, by rwa [hsame hkc] at hk⟩
  have hnotin : ∀ {k}, k ≠ c → k ∉ s.registry → k ∉ s'.registry := fun hkc hk hmem =>
    (List.mem_cons.mp (hregistry ▸ hmem)).elim hkc hk
  refine ⟨hregistry ▸ List.nodup_cons.mpr ⟨hnot, h.nodup⟩, fun k hk l hl heq => ?_, fun k hk => ?_,
    fun k hkp hk => ?_, fun m hm => ?_, hqueue ▸ h.queue, ?_, fun k hk => ?_,
    fun x k hk hx => ?_, fun x k hk => ?_⟩
  · rw [hregistry] at hk hl
    rcases List.mem_cons.mp hk with hkc | hk' <;> rcases List.mem_cons.mp hl with hlc | hl'
    · rw [hkc, hlc]
    · rw [hkc, hself, hb, hsame (hne l hl')] at heq
      exact absurd heq.symm (hid l hl')
    · rw [hlc, hself, hb, hsame (hne k hk')] at heq
      exact absurd heq (hid k hk')
    · rw [hsame (hne k hk'), hsame (hne l hl')] at heq
      exact h.ids k hk' l hl' heq
  · rcases List.mem_cons.mp (hregistry ▸ hk) with rfl | hk
    · simp [hself, hp]
    · rw [hsame (hne k hk)]
      exact h.registered k hk
  · obtain ⟨hkc, hk⟩ := not_or.mp (mt List.mem_cons.mpr (hregistry ▸ hk))
    rw [hsame hkc] at hkp ⊢
    exact h.freed k hkp hk
  · obtain ⟨k, hk, hid, h1⟩ := h.messages m (hqueue ▸ hm)
    exact ⟨k, hregistry ▸ List.mem_cons_of_mem _ hk, by rw [hsame (hne k hk), hid],
      by rw [hsame (hne k hk), h1]⟩
  · rw [hreaper]
    refine h.reaping.of_registry hqueue hack (fun k hk _ => ?_) fun x k hk hkr => ?_
    · exact ⟨hregistry ▸ List.mem_cons_of_mem _ hk, hsame (hne k hk)⟩
    · have hkc : k ≠ c := by
        rintro rfl
        rw [hdef] at hk
        cases hk
      exact ⟨hsame hkc, hnotin hkc hkr⟩
  · obtain ⟨hkc, hk⟩ := hother hk (by simp)
    exact hnotin hkc (h.joined k hk)
  · obtain ⟨hkc, hk⟩ := hother hk (by simp)
    exact hnotin hkc (h.acked x k hk (hack ▸ hx))
  · have hkc : k ≠ c := by
      rintro rfl
      rw [hself, hu] at hk
      cases hk
    rw [hsame hkc] at hk
    rw [hack]
    exact h.unacked x k hk

theorem Books.unregister (h : Books s) (hu : (s.blocks c).usage = .creating a)
    (h0 : (s.blocks c).sent = 0) (hblocks : s'.blocks = Function.update s.blocks c {})
    (hregistry : s'.registry = s.registry.erase c)
    (hqueue : s'.queue = s.queue) (hreaper : s'.reaper = s.reaper)
    (hack : s'.acknowledgement = s.acknowledgement) : Books s' := by
  have hself : s'.blocks c = {} := by rw [hblocks, Function.update_self]
  have hsame : ∀ {k}, k ≠ c → s'.blocks k = s.blocks k := fun hk => by
    rw [hblocks, Function.update_of_ne hk]
  have hmem : ∀ {k}, k ∈ s'.registry ↔ k ≠ c ∧ k ∈ s.registry := by
    rw [hregistry]
    exact h.nodup.mem_erase_iff
  have hsent : ∀ k, (s.blocks k).sent = 1 → k ≠ c := by
    rintro k h1 rfl
    omega
  have hother : ∀ {k u}, (s'.blocks k).usage = u → u ≠ .fresh →
      k ≠ c ∧ (s.blocks k).usage = u := by
    rintro k u hk hx
    have hkc : k ≠ c := by
      rintro rfl
      rw [hself] at hk
      exact hx hk.symm
    exact ⟨hkc, by rwa [hsame hkc] at hk⟩
  refine ⟨hregistry ▸ h.nodup.erase c, fun k hk l hl heq => ?_, fun k hk => ?_,
    fun k hkp hk => ?_, fun m hm => ?_, hqueue ▸ h.queue, ?_, fun k hk hin => ?_,
    fun x k hk hx hin => ?_, fun x k hk => ?_⟩
  · obtain ⟨hkc, hk⟩ := hmem.mp hk
    obtain ⟨hlc, hl⟩ := hmem.mp hl
    rw [hsame hkc, hsame hlc] at heq
    exact h.ids k hk l hl heq
  · obtain ⟨hkc, hk⟩ := hmem.mp hk
    rw [hsame hkc]
    exact h.registered k hk
  · have hkc : k ≠ c := by
      rintro rfl
      rw [hself] at hkp
      exact hkp rfl
    rw [hsame hkc] at hkp ⊢
    exact h.freed k hkp fun hin => hk (hmem.mpr ⟨hkc, hin⟩)
  · obtain ⟨k, hk, hid, h1⟩ := h.messages m (hqueue ▸ hm)
    have hkc := hsent k h1
    exact ⟨k, hmem.mpr ⟨hkc, hk⟩, by rw [hsame hkc, hid], by rw [hsame hkc, h1]⟩
  · rw [hreaper]
    refine h.reaping.of_registry hqueue hack (fun k hk h1 => ?_) fun x k hk hkr => ?_
    · exact ⟨hmem.mpr ⟨hsent k h1, hk⟩, hsame (hsent k h1)⟩
    · have hkc : k ≠ c := by
        rintro rfl
        rw [hu] at hk
        cases hk
      exact ⟨hsame hkc, fun hin => hkr (hmem.mp hin).2⟩
  · exact h.joined k (hother hk (by simp)).2 (hmem.mp hin).2
  · exact h.acked x k (hother hk (by simp)).2 (hack ▸ hx) (hmem.mp hin).2
  · have hkc : k ≠ c := by
      rintro rfl
      rw [hself] at hk
      cases hk
    rw [hsame hkc] at hk
    rw [hack]
    exact h.unacked x k hk

theorem Good.register (h : Good s) (hid : FreshId s) (hs : registerThread s a c = some s') :
    Good s' := by
  unfold registerThread at hs
  split at hs
  · rename_i hguard
    simp only [Bool.and_eq_true, decide_eq_true_eq] at hguard
    obtain ⟨ha, hp⟩ := hguard
    cases hs
    have hdef := (h.sound c).absent hp
    have hcalls : Calls ((s.set c
        { registryId := s.nextRegistryId, phase := .registered, usage := .creating a }).setBusy a c) :=
      h.calls.begin ha (by rw [hdef]; rfl) rfl (by simp [hp])
    exact ⟨sound_set h.sound (sound_registered c _ a), ⟨hcalls.busy, hcalls.running⟩,
      h.books.register hid hdef rfl rfl rfl rfl rfl rfl rfl rfl⟩
  · cases hs

theorem threadCreate_cases {created : Bool} (hs : threadCreate s a created = some s') :
    ∃ c, s.busy a = some c ∧ (s.blocks c).usage = .creating a ∧
      (created = true ∧ s' = (s.set c { s.blocks c with phase := .start, usage := .fresh }).setBusy
        a none ∨ created = false ∧ s' = { (s.set c {}).setBusy a none with
          registry := s.registry.erase c }) := by
  unfold threadCreate at hs
  split at hs
  · cases hs
  · rename_i c hb
    split at hs
    · rename_i hu
      refine ⟨c, hb, hu, ?_⟩
      cases created <;> cases hs
      · exact .inr ⟨rfl, rfl⟩
      · exact .inl ⟨rfl, rfl⟩
    · cases hs

theorem Good.unregister (h : Good s) (hs : threadCreate s a false = some s') : Good s' := by
  obtain ⟨c, hb, hu, ⟨hcreated, -⟩ | ⟨-, rfl⟩⟩ := threadCreate_cases hs
  · cases hcreated
  · have hnew := (h.sound c).new_block hu
    have hcalls : Calls ((s.set c {}).setBusy a none) :=
      h.calls.finish ((h.calls.busy a c).mp hb) rfl (by rw [hnew]; simp)
    exact ⟨sound_set h.sound (sound_default c), ⟨hcalls.busy, hcalls.running⟩,
      h.books.unregister hu (by rw [hnew]) rfl rfl rfl rfl rfl⟩

theorem Good.waiter (h : Good s) (hc : c ∈ s.registry) (h1 : (s.blocks c).sent = 1)
    (ha : (s.blocks c).cleanupAck = some a) :
    (s.blocks c).usage = .joining a .acknowledge ∧ s.acknowledgement a = 0 := by
  have hwill := ((h.sound c).sent_once h1).1
  have huser := ((h.sound c).ackUser a ha).resolve_right fun hj => h.books.joined c hj hc
  have hu : (s.blocks c).usage = .joining a .acknowledge := by
    revert hwill huser
    cases (s.blocks c).usage with
    | joining x step => cases step <;> simp [willSend, acknowledger]
    | _ => simp [acknowledger]
  refine ⟨hu, ?_⟩
  by_contra hne
  exact h.books.acked a c hu (Nat.pos_of_ne_zero hne) hc

theorem Good.delete (h : Good s) {ack : Option Agent} (hr : s.reaper = .deleting c ack) :
    Books { s with registry := s.registry.erase c, reaper := .acknowledging ack } := by
  have hreaping := h.books.reaping
  rw [hr] at hreaping
  obtain ⟨⟨hc, hm, h1⟩, hp, hack⟩ := hreaping
  have hmem : ∀ {k}, k ∈ s.registry.erase c ↔ k ≠ c ∧ k ∈ s.registry := h.books.nodup.mem_erase_iff
  refine ⟨h.books.nodup.erase c, fun k hk l hl => h.books.ids k (hmem.mp hk).2 l (hmem.mp hl).2,
    fun k hk => h.books.registered k (hmem.mp hk).2, fun k hpk hk => ?_, fun m hq => ?_,
    h.books.queue, ?_, fun k hk hin => h.books.joined k hk (hmem.mp hin).2,
    fun x k hk hx hin => h.books.acked x k hk hx (hmem.mp hin).2, h.books.unacked⟩
  · by_cases hkc : k = c
    · subst hkc
      exact ⟨hp, h1⟩
    · exact h.books.freed k hpk fun hin => hk (hmem.mpr ⟨hkc, hin⟩)
  · obtain ⟨k, hk, rfl, hk1⟩ := h.books.messages m hq
    refine ⟨k, hmem.mpr ⟨?_, hk⟩, rfl, hk1⟩
    rintro rfl
    exact hm hq
  · rintro a rfl
    obtain ⟨hu, h0⟩ := h.waiter hc h1 hack
    exact ⟨h0, c, hu, fun hin => (hmem.mp hin).1 rfl⟩

theorem Good.acknowledge (h : Good s) (hr : s.reaper = .acknowledging (some a)) :
    Books { s.setAcknowledgement a (s.acknowledgement a + 1) with reaper := .receive } := by
  have hreaping := h.books.reaping
  rw [hr] at hreaping
  obtain ⟨_, c, hc, hfreed⟩ := hreaping a rfl
  have hflight : inFlight (s.blocks c).usage = some a := by simp [hc, inFlight]
  refine ⟨h.books.nodup, h.books.ids, h.books.registered, h.books.freed, h.books.messages,
    h.books.queue, trivial, h.books.joined, fun x k hk hx => ?_, fun x k hk => ?_⟩
  · by_cases hxa : x = a
    · subst hxa
      have hin : inFlight (s.blocks k).usage = some x := by
        rw [show (s.blocks k).usage = _ from hk]
        rfl
      rw [← h.calls.unique hflight hin]
      exact hfreed
    · exact h.books.acked x k hk (by simpa [State.setAcknowledgement, hxa] using hx)
  · have hxa : x ≠ a := by
      rintro rfl
      obtain rfl := h.calls.unique hflight (inFlight_of_prepared hk)
      rw [show (State.setAcknowledgement s x _).blocks c = s.blocks c from rfl, hc] at hk
      cases hk
    exact (Function.update_of_ne hxa ..).trans (h.books.unacked x k hk)

theorem Good.reap (h : Good s) (hs : reaperEntry s = some s') : Good s' := by
  have hr := h.books.reaping
  unfold reaperEntry at hs
  cases hre : s.reaper <;> simp only [hre] at hs hr
  case receive =>
    cases hq : s.queue with
    | nil =>
      rw [hq] at hs
      cases hs
    | cons m queue =>
      simp only [hq] at hs
      cases hs
      have hnodup := h.books.queue
      have hmessages := h.books.messages
      rw [hq] at hnodup hmessages
      obtain ⟨hnot, hnodup⟩ := List.nodup_cons.mp hnodup
      exact ⟨h.sound, ⟨h.calls.busy, h.calls.running⟩, h.books.nodup, h.books.ids,
        h.books.registered, h.books.freed, fun l hl => hmessages l (List.mem_cons_of_mem _ hl),
        hnodup, ⟨hnot, hmessages m List.mem_cons_self⟩, h.books.joined, h.books.acked,
        h.books.unacked⟩
  case received m =>
    obtain ⟨hm, c, hc, rfl, h1⟩ := hr
    rw [h.books.findThread hc] at hs
    cases hs
    exact ⟨h.sound, ⟨h.calls.busy, h.calls.running⟩, h.books.nodup, h.books.ids,
      h.books.registered, h.books.freed, h.books.messages, h.books.queue, ⟨hc, hm, h1⟩,
      h.books.joined, h.books.acked, h.books.unacked⟩
  case waiting c =>
    split at hs
    · rename_i hp
      cases hs
      exact ⟨h.sound, ⟨h.calls.busy, h.calls.running⟩, h.books.nodup, h.books.ids,
        h.books.registered, h.books.freed, h.books.messages, h.books.queue, ⟨hr, hp, rfl⟩,
        h.books.joined, h.books.acked, h.books.unacked⟩
    · cases hs
  case deleting c ack =>
    cases hs
    exact ⟨h.sound, ⟨h.calls.busy, h.calls.running⟩, h.delete hre⟩
  case acknowledging ack =>
    cases ack with
    | none =>
      cases hs
      exact ⟨h.sound, ⟨h.calls.busy, h.calls.running⟩, h.books.nodup, h.books.ids,
        h.books.registered, h.books.freed, h.books.messages, h.books.queue, trivial,
        h.books.joined, h.books.acked, h.books.unacked⟩
    | some a =>
      cases hs
      exact ⟨h.sound, ⟨h.calls.busy, h.calls.running⟩, h.acknowledge hre⟩

end

end SimPLCity.BlockBooks
