import SimPLCity.BlockBooks

/-! What a step of a thread, a join or a detach can do: it is about one block, in one of a few
ways. -/

namespace SimPLCity.BlockEffects
open ThreadLifecycle ControlBlocks BlockBooks

/-- The block whose message the step puts into the queue. -/
def message (s : State) : Action → Option ControlId
  | .entry c => if (s.blocks c).phase = .send then some (s.blocks c).control else none
  | .call a => (s.busy a).filter fun c =>
      (s.blocks c).usage = .joining a .send || (s.blocks c).usage = .detaching a .send
  | _ => none

/-- The part of `thread_detach` that ends with the message. -/
def queueing : DetachStep → Bool
  | .unlock enqueue => enqueue
  | .send => true
  | _ => false

/-- What the step makes of the handle of block `c`. -/
inductive Turn (s : State) (i : Action) (c : ControlId) : Usage → Usage → Prop
  | same {u} (h : ∀ a, i ≠ .call a) : Turn s i c u u
  | join {a} (h : i = .join a c) (hne : a ≠ .thread c) : Turn s i c .fresh (.joining a .wait)
  | detach {a} : Turn s i c .fresh (.detaching a .lock)
  | joining {a p q} (hp : p ≠ .acknowledge) (hq : q ≠ .acknowledge) :
      Turn s i c (.joining a p) (.joining a q)
  | queued {a} (h : message s i = some c) : Turn s i c (.joining a .send) (.joining a .acknowledge)
  | detaching {a p q} (hp : p ≠ .send) (h : queueing q = true →
      queueing p = true ∨ i = .call a ∧ p = .mark ∧ (s.blocks c).finished = true) :
      Turn s i c (.detaching a p) (.detaching a q)
  | over {u v} (h : inFlight v = none) : Turn s i c u v

/-- The step changes block `c` to `b`. -/
structure Effect (s s' : State) (i : Action) (c : ControlId) (b : Block) : Prop
    extends Framed s s' c b where
  sound : Sound c b
  calls : Calls s'
  idle : b.phase ≠ (s.blocks c).phase → b.phase ≠ .start →
    s.busy (.thread c) = none ∧ b.usage = (s.blocks c).usage
  usage : Turn s i c (s.blocks c).usage b.usage
  quiet : message s i = none ∧ s'.queue = s.queue ∧ b.sent = (s.blocks c).sent ∨
    message s i = some c ∧ s.queue.length < cleanupQueueDepth ∧
      s'.queue = s.queue ++ [(s.blocks c).registryId]
  counter : s'.nextRegistryId = s.nextRegistryId

section
variable {s s' : State} {c k t : ControlId} {a : Agent} {b : Block} {i : Action}

theorem Effect.thread (h : Good s) (hmessage : message s i = none) (hi : ∀ a, i ≠ .call a)
    (hidle : s.busy (.thread c) = none) (hsound : Sound c b)
    (hid : b.registryId = (s.blocks c).registryId) (hsent : b.sent = (s.blocks c).sent)
    (hack : b.cleanupAck = (s.blocks c).cleanupAck) (husage : b.usage = (s.blocks c).usage)
    (hpresent : (s.blocks c).phase ≠ .absent ∧ b.phase ≠ .absent)
    (hcompleted : (s.blocks c).phase = .completed → b.phase = .completed) :
    Effect s (s.set c b) i c b where
  toFramed := .steady h.books rfl rfl rfl rfl rfl hid hsent (fun _ => hack) hpresent hcompleted
    (fun _ => by rw [husage]) (fun hj => by rwa [← husage]) fun _ ha => by rwa [← husage]
  sound := hsound
  calls := h.calls.set (by rw [husage]) fun hb => absurd hidle hb
  idle := fun _ _ => ⟨hidle, husage⟩
  usage := by
    rw [husage]
    exact .same hi
  quiet := Or.inl ⟨hmessage, rfl, hsent⟩
  counter := rfl

theorem Effect.enqueue (h : Good s) {u : Usage} (hu : (s.blocks c).usage = u)
    (hsound : Sound c b) (hcalls : Calls s') (hturn : Turn s i c u b.usage)
    (hidle : b.phase ≠ (s.blocks c).phase → b.phase ≠ .start →
      s.busy (.thread c) = none ∧ b.usage = (s.blocks c).usage)
    (hmessage : message s i = some c) (hroom : s.queue.length < cleanupQueueDepth)
    (hblocks : s'.blocks = Function.update s.blocks c b) (hregistry : s'.registry = s.registry)
    (hreaper : s'.reaper = s.reaper) (hack : s'.acknowledgement = s.acknowledgement)
    (hqueue : s'.queue = s.queue ++ [(s.blocks c).registryId])
    (hid : b.registryId = (s.blocks c).registryId)
    (h0 : (s.blocks c).sent = 0) (h1 : b.sent = 1) (hpresent : b.phase ≠ .absent)
    (hp : (s.blocks c).phase ≠ .absent)
    (hcompleted : (s.blocks c).phase = .completed → b.phase = .completed)
    (hwaits : ∀ a, b.usage = .joining a .acknowledge → prepared (s.blocks c).usage = some a)
    (hjoined : b.usage ≠ .joined)
    (hprepared : ∀ a, prepared b.usage = some a → prepared (s.blocks c).usage = some a)
    (hcounter : s'.nextRegistryId = s.nextRegistryId := by rfl) : Effect s s' i c b where
  toFramed := by
    refine ⟨hblocks, hregistry, hreaper, Or.inr ⟨h0, h1, ?_, hqueue⟩, hid, fun h => by omega,
      ⟨hp, hpresent⟩, hcompleted, fun a ha => Or.inr ?_, fun a ha => ?_,
      fun hj => absurd hj hjoined, fun a k _ _ => by rw [hack], fun a k hk => ?_⟩
    · exact h.books.registered_of_running hp (Or.inr (by omega))
    · rw [hack]
      exact h.books.unacked a c (hwaits a ha)
    · have := (h.sound c).sentJoin (by simp [ha, acknowledged])
      omega
    · rw [hack]
      by_cases hkc : k = c
      · subst hkc
        rw [hblocks, Function.update_self] at hk
        exact h.books.unacked a k (hprepared a hk)
      · rw [hblocks, Function.update_of_ne hkc] at hk
        exact h.books.unacked a k hk
  sound := hsound
  calls := hcalls
  idle := hidle
  usage := hu ▸ hturn
  quiet := Or.inr ⟨hmessage, hroom, hqueue⟩
  counter := hcounter

theorem enqueueCleanup_eq (he : enqueueCleanup s c = some s') :
    s.queue.length < cleanupQueueDepth ∧
      s' = { s.set c { s.blocks c with sent := (s.blocks c).sent + 1 } with
        queue := s.queue ++ [(s.blocks c).registryId] } := by
  unfold enqueueCleanup at he
  split at he
  · cases he
    exact ⟨‹_›, rfl⟩
  · cases he

theorem entry_effect (h : Good s) (hs : threadEntry s c = some s') :
    ∃ b, Effect s s' (.entry c) c b := by
  have hc := h.sound c
  have hidle : ∀ {p}, (s.blocks c).phase = p → p ≠ .body → p ≠ .exit →
      s.busy (.thread c) = none := by
    intro p hp hb he
    by_contra hno
    rcases h.calls.running c hno with h' | h'
    · exact hb (hp.symm.trans h')
    · exact he (hp.symm.trans h')
  unfold threadEntry at hs
  cases hp : (s.blocks c).phase <;> simp only [hp] at hs
  case start =>
    have hreg := h.books.registered_of_running (c := c) (by simp [hp]) (Or.inl (by simp [hp]))
    simp only [h.books.findThread hreg, Option.map_some, Option.some.injEq] at hs
    subst hs
    exact ⟨_, .thread h (by simp [message, hp]) (by simp) (hidle hp (by simp) (by simp))
      (hc.start hp) rfl rfl rfl rfl ⟨by simp [hp], by simp⟩ (by simp [hp])⟩
  case lock =>
    rw [hc.control (by simp [hp, entered])] at hs
    split at hs
    · rename_i hm
      cases hs
      simp only [State.change, State.setPhase, set_set, set_self]
      exact ⟨_, .thread h (by simp [message, hp]) (by simp) (hidle hp (by simp) (by simp))
        (hc.lock hp hm) rfl rfl rfl rfl ⟨by simp [hp], by simp⟩ (by simp [hp])⟩
    · cases hs
  case mark =>
    rw [hc.control (by simp [hp, entered])] at hs
    cases hs
    simp only [State.change, State.setPhase, set_set, set_self]
    exact ⟨_, .thread h (by simp [message, hp]) (by simp) (hidle hp (by simp) (by simp))
      (hc.mark hp) rfl rfl rfl rfl ⟨by simp [hp], by simp⟩ (by simp [hp])⟩
  case unlock e =>
    rw [hc.control (by simp [hp, entered])] at hs
    cases hs
    simp only [State.change, State.setPhase, set_set, set_self]
    exact ⟨_, .thread h (by simp [message, hp]) (by simp) (hidle hp (by simp) (by simp))
      (hc.unlock hp) rfl rfl rfl rfl ⟨by simp [hp], by simp⟩ (by simp [hp])⟩
  case put e =>
    rw [hc.control (by simp [hp, entered])] at hs
    cases hs
    simp only [State.change, State.setPhase, set_set, set_self]
    exact ⟨_, .thread h (by simp [message, hp]) (by simp) (hidle hp (by simp) (by simp))
      (hc.put hp) rfl rfl rfl rfl ⟨by simp [hp], by cases e <;> simp⟩ (by simp [hp])⟩
  case send =>
    rw [hc.control (by simp [hp, entered])] at hs
    obtain ⟨s₁, he, rfl⟩ := Option.map_eq_some_iff.mp hs
    obtain ⟨hroom, rfl⟩ := enqueueCleanup_eq he
    have hsum := hc.queued
    have hle := (s.blocks c).cleanupQueued.toNat_le
    simp only [hp, sends, Bool.toNat_true] at hsum
    have h0 : (s.blocks c).sent = 0 := by omega
    have hcalls : Calls (s.set c { s.blocks c with sent := (s.blocks c).sent + 1, phase := .exit }) :=
      h.calls.set rfl fun hno => absurd (hidle hp (by simp) (by simp)) hno
    simp only [State.setPhase, State.set, Function.update_self, Function.update_idem]
    exact ⟨_, .enqueue h rfl (hc.send hp) ⟨hcalls.busy, hcalls.running⟩ (.same (by simp))
      (fun _ _ => ⟨hidle hp (by simp) (by simp), rfl⟩)
      (by simp [message, hp, hc.control (by simp [hp, entered])]) hroom rfl rfl rfl rfl rfl rfl h0
      (by simp [h0]) (by simp) (by simp [hp]) (by simp [hp])
      (fun a ha => by
        have := hc.sentJoin (Or.inl (by simp [show (s.blocks c).usage = _ from ha, acknowledged]))
        omega)
      (fun hj => by
        have := hc.sentJoin (Or.inr hj)
        omega) fun a ha => ha⟩
  case absent | registered | body | exit | completed => cases hs

theorem returns_effect (h : Good s) (hs : returns s c = some s') :
    ∃ b, Effect s s' (.returns c) c b := by
  have hc := h.sound c
  unfold ThreadLifecycle.returns at hs
  split at hs
  · rename_i hidle
    split at hs
    · rename_i hp
      cases hs
      exact ⟨_, .thread h rfl (by simp) hidle (hc.proceed (p := .lock) (by simp [hp, marked])
        (by simp [hp, posted]) (by simp [hp, holds]) (by simp [hp, sends]) (by simp [hp, entered])
        (by simp) ⟨by simp [hp], by simp⟩) rfl rfl rfl rfl ⟨by simp [hp], by simp⟩ (by simp [hp])⟩
    · rename_i hp
      cases hs
      exact ⟨_, .thread h rfl (by simp) hidle (hc.proceed (p := .completed) (by simp [hp, marked])
        (by simp [hp, posted]) (by simp [hp, holds]) (by simp [hp, sends]) (by simp [hp, entered])
        (by simp) ⟨by simp [hp], by simp⟩) rfl rfl rfl rfl ⟨by simp [hp], by simp⟩ (by simp [hp])⟩
    · cases hs
  · cases hs

theorem Effect.advance (h : Good s) (hmessage : message s i = none) {u : Usage}
    (hu : (s.blocks c).usage = u)
    (hsound : Sound c b) (hcalls : Calls s') (hturn : Turn s i c u b.usage)
    (hblocks : s'.blocks = Function.update s.blocks c b) (hregistry : s'.registry = s.registry)
    (hreaper : s'.reaper = s.reaper) (hqueue : s'.queue = s.queue)
    (hack : s'.acknowledgement = s.acknowledgement)
    (hid : b.registryId = (s.blocks c).registryId) (hsent : b.sent = (s.blocks c).sent)
    (hcleanup : (s.blocks c).sent = 1 → b.cleanupAck = (s.blocks c).cleanupAck)
    (hpresent : (s.blocks c).phase ≠ .absent) (hphase : b.phase = (s.blocks c).phase)
    (hwaits : acknowledged b.usage = none ∧ acknowledged u = none) (hjoined : b.usage ≠ .joined)
    (hprepared : ∀ a, prepared b.usage = some a → prepared u = some a)
    (hcounter : s'.nextRegistryId = s.nextRegistryId := by rfl) : Effect s s' i c b where
  toFramed := by
    subst hu
    have hnot : ∀ {u : Usage} {a}, acknowledged u = none → u ≠ .joining a .acknowledge := by
      rintro u a hu rfl
      simp [acknowledged] at hu
    exact .steady h.books hblocks hregistry hreaper hqueue hack hid hsent hcleanup
      ⟨hpresent, by rwa [hphase]⟩ (fun hc => by rwa [hphase])
      (fun a => iff_of_false (hnot hwaits.1) (hnot hwaits.2)) (fun hj => absurd hj hjoined)
      hprepared
  sound := hsound
  calls := hcalls
  idle := fun hp _ => absurd hphase hp
  usage := hu ▸ hturn
  quiet := Or.inl ⟨hmessage, hqueue, hsent⟩
  counter := hcounter

theorem Effect.move (h : Good s) (hmessage : message s i = none) {u v : Usage}
    (hu : (s.blocks c).usage = u) (hmove : Move a u v) {m : Option Agent}
    (hsound : Sound c { s.blocks c with lifecycleMutex := m, usage := v }) (hcalls : Calls s')
    (hturn : Turn s i c u v) (hp : (s.blocks c).phase ≠ .absent)
    (hblocks : s'.blocks =
      Function.update s.blocks c { s.blocks c with lifecycleMutex := m, usage := v })
    (hregistry : s'.registry = s.registry) (hreaper : s'.reaper = s.reaper)
    (hqueue : s'.queue = s.queue) (hack : s'.acknowledgement = s.acknowledgement)
    (hcounter : s'.nextRegistryId = s.nextRegistryId) :
    Effect s s' i c { s.blocks c with lifecycleMutex := m, usage := v } := by
  have hwaits : acknowledged v = none ∧ acknowledged u = none := by cases hmove <;> exact ⟨rfl, rfl⟩
  have hjoined : v ≠ .joined := by cases hmove <;> simp
  have hprepared : ∀ a, prepared v = some a → prepared u = some a := by
    cases hmove <;> simp [prepared]
  exact .advance h hmessage hu hsound hcalls hturn hblocks hregistry hreaper hqueue hack rfl rfl
    (fun _ => rfl) hp rfl hwaits hjoined hprepared hcounter

theorem message_joining (h : Good s) {step : JoinStep} (hu : (s.blocks c).usage = .joining a step)
    (hne : step ≠ .send) : message s (.call a) = none := by
  simp [message, (h.calls.busy a c).mpr (by simp [hu, inFlight]), hu, hne]

theorem joinWait_effect (h : Good s) (hu : (s.blocks c).usage = .joining a .wait)
    (hcount : 0 < (s.blocks c).completion) :
    ∃ b, Effect s (((s.change c ThreadControl.takeCompletion).setUsage c (.joining a .lock)).setAcknowledgement
      a 0) (.call a) c b := by
  have hc := h.sound c
  have hp : (s.blocks c).phase ≠ .absent := hc.present (by simp [hu])
  have hflight : inFlight (s.blocks c).usage = some a := by simp [hu, inFlight]
  simp only [State.change, State.setUsage, set_set, set_self]
  have hcalls : Calls (s.set c { s.blocks c with
      completion := (s.blocks c).completion - 1, usage := .joining a .lock }) := h.calls.set hflight.symm fun _ => rfl
  have hnot : ∀ x k, (s.blocks k).usage = .joining x .acknowledge → x ≠ a := by
    rintro x k hk rfl
    have hin : inFlight (s.blocks k).usage = some x := by simp [hk, inFlight]
    rw [← h.calls.unique hflight hin, hu] at hk
    cases hk
  refine ⟨_, ⟨rfl, rfl, rfl, Or.inl rfl, rfl, fun h1 => ⟨h1, rfl⟩, ⟨hp, hp⟩, id,
    by simp, by simp [hu], by simp, fun x k hk _ => ?_, fun x k hk => ?_⟩,
    hc.joinWait hu hcount, ⟨hcalls.busy, hcalls.running⟩, fun hne _ => absurd rfl hne,
    hu ▸ .joining (by simp) (by simp), Or.inl ⟨message_joining h hu (by simp), rfl, rfl⟩, rfl⟩
  · exact Function.update_of_ne (hnot x k hk) ..
  · by_cases hx : x = a
    · rw [hx]
      exact Function.update_self ..
    · refine (Function.update_of_ne hx ..).trans ?_
      by_cases hkc : k = c
      · subst hkc
        simp only [State.setAcknowledgement, set_self, prepared, Option.some.injEq] at hk
        exact absurd hk.symm hx
      · refine h.books.unacked x k ?_
        simpa [State.setAcknowledgement, State.set, hkc] using hk

theorem joinAcknowledge_effect (h : Good s) (hu : (s.blocks c).usage = .joining a .acknowledge)
    (hcount : 0 < s.acknowledgement a) :
    ∃ b, Effect s ((s.finish a c .joined).setAcknowledgement a (s.acknowledgement a - 1)) (.call a) c b := by
  have hc := h.sound c
  have hp : (s.blocks c).phase ≠ .absent := hc.present (by simp [hu])
  have hflight : inFlight (s.blocks c).usage = some a := by simp [hu, inFlight]
  have hcalls : Calls ((s.set c { s.blocks c with usage := .joined }).setBusy a none) :=
    h.calls.finish hflight (by simp [inFlight]) fun _ => rfl
  have hfreed := h.books.acked a c hu hcount
  have hblocks : ∀ k x, k ≠ c → inFlight (s.blocks k).usage = some x → x ≠ a := by
    rintro k x hk hin rfl
    exact hk (h.calls.unique hin hflight)
  refine ⟨{ s.blocks c with usage := .joined },
    ⟨rfl, rfl, rfl, Or.inl rfl, rfl, fun h1 => ⟨h1, rfl⟩, ⟨hp, hp⟩, id,
    by simp, fun x hx => Or.inr ?_, fun _ => Or.inr hfreed, fun x k hk hk' => ?_,
    fun x k hk => ?_⟩, hc.joined hu, ⟨hcalls.busy, hcalls.running⟩, fun hne _ => absurd rfl hne,
    .over rfl, Or.inl ⟨message_joining h hu (by simp), rfl, rfl⟩, rfl⟩
  · rw [hu] at hx
    cases hx
    exact hcount
  · by_cases hkc : k = c
    · subst hkc
      simp [State.setAcknowledgement, State.finish, State.setUsage, State.setBusy] at hk'
    · exact Function.update_of_ne (hblocks k x hkc (by simp [hk, inFlight])) ..
  · by_cases hkc : k = c
    · subst hkc
      simp [State.setAcknowledgement, State.finish, State.setUsage, State.setBusy, prepared] at hk
    · have hk' : prepared (s.blocks k).usage = some x := by
        simpa [State.setAcknowledgement, State.finish, State.setUsage, State.setBusy, State.set,
          hkc] using hk
      exact (Function.update_of_ne (hblocks k x hkc (inFlight_of_prepared hk')) ..).trans
        (h.books.unacked x k hk')

theorem join_effect (h : Good s) {step : JoinStep} (hu : (s.blocks c).usage = .joining a step)
    (hs : threadJoin s a c step = some s') : ∃ b, Effect s s' (.call a) c b := by
  have hc := h.sound c
  have hp : (s.blocks c).phase ≠ .absent := hc.present (by simp [hu])
  have hflight : inFlight (s.blocks c).usage = some a := by simp [hu, inFlight]
  have hset : ∀ {b : Block}, inFlight b.usage = some a ∧ b.phase = (s.blocks c).phase →
      Calls (s.set c b) := fun hb => h.calls.set (hb.1.trans hflight.symm) fun _ => hb.2
  have hturn : ∀ {p q}, p ≠ .acknowledge → q ≠ .acknowledge →
      Turn s (.call a) c (.joining a p) (.joining a q) := .joining
  have hquiet := message_joining h hu
  unfold threadJoin at hs
  cases step <;> simp only at hs
  case wait =>
    split at hs
    · rename_i hcount
      cases hs
      exact joinWait_effect h hu hcount
    · cases hs
  case lock =>
    split at hs
    · rename_i hm
      cases hs
      simp only [State.change, State.setUsage, set_set, set_self]
      exact ⟨_, .move h (hquiet (by simp)) hu .joinLock (hc.acquire hu .joinLock hm rfl hp)
        (hset ⟨rfl, rfl⟩) (hturn (by simp) (by simp)) hp rfl rfl rfl rfl rfl rfl⟩
    · cases hs
  case mark =>
    split at hs
    · cases hs
      exact ⟨_, .move h (hquiet (by simp)) hu .joinMark (hc.advance hu .joinMark rfl hp)
        (hset ⟨rfl, rfl⟩) (hturn (by simp) (by simp)) hp rfl rfl rfl rfl rfl rfl⟩
    · rename_i hflags
      cases hs
      simp only [ThreadControl.isClaimed, Bool.or_eq_true, not_or, Bool.not_eq_true] at hflags
      simp only [State.change, State.setUsage, set_set, set_self]
      have h0 := (hc.unqueued hflags.2).1
      exact ⟨_, .advance h (hquiet (by simp)) hu (hc.joinMark hu hflags.2)
        (hset ⟨rfl, rfl⟩) (hturn (by simp) (by simp))
        rfl rfl rfl rfl rfl rfl rfl (fun h1 => by omega) hp rfl (by simp [acknowledged]) (by simp)
        (by simp [prepared])⟩
  case refuse =>
    cases hs
    simp only [State.change, State.finish, State.setUsage, set_set, set_self]
    exact ⟨_, .move h (hquiet (by simp)) hu .joinRefuse (hc.release hu .joinRefuse rfl rfl hp)
      (h.calls.finish hflight rfl fun _ => rfl) (.over rfl) hp rfl rfl rfl rfl rfl rfl⟩
  case unlock =>
    cases hs
    simp only [State.change, State.setUsage, set_set, set_self]
    exact ⟨_, .move h (hquiet (by simp)) hu .joinUnlock (hc.release hu .joinUnlock rfl rfl hp)
      (hset ⟨rfl, rfl⟩) (hturn (by simp) (by simp)) hp rfl rfl rfl rfl rfl rfl⟩
  case send =>
    obtain ⟨s₁, he, rfl⟩ := Option.map_eq_some_iff.mp hs
    obtain ⟨hroom, rfl⟩ := enqueueCleanup_eq he
    have hwill : willSend (s.blocks c).usage = true := by simp [hu, willSend]
    have hsum := hc.queued
    have hle := (s.blocks c).cleanupQueued.toNat_le
    simp only [hwill, Bool.toNat_true] at hsum
    have h0 : (s.blocks c).sent = 0 := by omega
    have hmessage : message s (.call a) = some c := by
      simp [message, (h.calls.busy a c).mpr hflight, hu]
    simp only [State.setUsage, State.set, Function.update_self, Function.update_idem]
    have hcalls : Calls (s.set c { s.blocks c with
        sent := (s.blocks c).sent + 1, usage := .joining a .acknowledge }) := hset ⟨rfl, rfl⟩
    exact ⟨_, .enqueue h hu (hc.deliver hwill (by simp [willSend]) rfl (by simp [hu, holder])
      (by simp [hu, hasDetached]) (by simp [hu]) (by simp [hu, taken]) (by simp [hu, acknowledger])
      (by simp [hu, isSettled]) hp) ⟨hcalls.busy, hcalls.running⟩ (.queued hmessage)
      (fun hne _ => absurd rfl hne) hmessage hroom rfl rfl rfl rfl rfl rfl h0 (by simp [h0]) hp
      hp id (by simp [hu, prepared]) (by simp) (by simp [prepared])⟩
  case acknowledge =>
    split at hs
    · rename_i hcount
      cases hs
      exact joinAcknowledge_effect h hu hcount
    · cases hs

theorem detach_effect (h : Good s) {step : DetachStep}
    (hu : (s.blocks c).usage = .detaching a step) (hs : threadDetach s a c step = some s') :
    ∃ b, Effect s s' (.call a) c b := by
  have hc := h.sound c
  have hp : (s.blocks c).phase ≠ .absent := hc.present (by simp [hu])
  have hflight : inFlight (s.blocks c).usage = some a := by simp [hu, inFlight]
  have hset : ∀ {b : Block}, inFlight b.usage = some a ∧ b.phase = (s.blocks c).phase →
      Calls (s.set c b) := fun hb => h.calls.set (hb.1.trans hflight.symm) fun _ => hb.2
  have hquiet : step ≠ .send → message s (.call a) = none := fun hne => by
    simp [message, (h.calls.busy a c).mpr hflight, hu, hne]
  unfold threadDetach at hs
  cases step <;> simp only at hs
  case lock =>
    split at hs
    · rename_i hm
      cases hs
      simp only [State.change, State.setUsage, set_set, set_self]
      exact ⟨_, .move h (hquiet (by simp)) hu .detachLock (hc.acquire hu .detachLock hm rfl hp)
        (hset ⟨rfl, rfl⟩) (.detaching (by simp) (by simp [queueing])) hp rfl rfl rfl rfl rfl rfl⟩
    · cases hs
  case mark =>
    split at hs
    · cases hs
      exact ⟨_, .move h (hquiet (by simp)) hu .detachMark (hc.advance hu .detachMark rfl hp)
        (hset ⟨rfl, rfl⟩) (.detaching (by simp) (by simp [queueing])) hp rfl rfl rfl rfl rfl rfl⟩
    · rename_i hflags
      cases hs
      simp only [ThreadControl.isClaimed, Bool.or_eq_true, not_or, Bool.not_eq_true] at hflags
      simp only [State.change, State.setUsage, set_set, set_self]
      exact ⟨_, .advance h (hquiet (by simp)) hu (hc.detachMark hu hflags.2)
        (hset ⟨rfl, rfl⟩) (.detaching (by simp) (by simp [queueing]))
        rfl rfl rfl rfl rfl rfl rfl (fun _ => rfl) hp rfl (by simp [acknowledged]) (by simp)
        (by simp [prepared])⟩
  case refuse =>
    cases hs
    simp only [State.change, State.finish, State.setUsage, set_set, set_self]
    exact ⟨_, .move h (hquiet (by simp)) hu .detachRefuse (hc.release hu .detachRefuse rfl rfl hp)
      (h.calls.finish hflight rfl fun _ => rfl) (.over rfl) hp rfl rfl rfl rfl rfl rfl⟩
  case unlock enqueue =>
    cases hs
    cases enqueue with
    | true =>
      simp only [if_true, State.change, State.setUsage, set_set, set_self]
      exact ⟨_, .move h (hquiet (by simp)) hu .detachUnlock (hc.release hu .detachUnlock rfl rfl hp)
        (hset ⟨rfl, rfl⟩) (.detaching (by simp) (by simp [queueing])) hp rfl rfl rfl rfl rfl rfl⟩
    | false =>
      simp only [Bool.false_eq_true, if_false, State.change, State.finish, State.setUsage, set_set, set_self]
      exact ⟨_, .move h (hquiet (by simp)) hu .detachOver (hc.release hu .detachOver rfl rfl hp)
        (h.calls.finish hflight rfl fun _ => rfl) (.over rfl) hp rfl rfl rfl rfl rfl rfl⟩
  case send =>
    obtain ⟨s₁, he, rfl⟩ := Option.map_eq_some_iff.mp hs
    obtain ⟨hroom, rfl⟩ := enqueueCleanup_eq he
    have hwill : willSend (s.blocks c).usage = true := by simp [hu, willSend]
    have hsum := hc.queued
    have hle := (s.blocks c).cleanupQueued.toNat_le
    simp only [hwill, Bool.toNat_true] at hsum
    have h0 : (s.blocks c).sent = 0 := by omega
    have hmessage : message s (.call a) = some c := by
      simp [message, (h.calls.busy a c).mpr hflight, hu]
    simp only [State.finish, State.setUsage, State.setBusy, State.set, Function.update_self,
      Function.update_idem]
    have hcalls : Calls ((s.set c { s.blocks c with
        sent := (s.blocks c).sent + 1, usage := .detached }).setBusy a none) :=
      h.calls.finish hflight (by simp [inFlight]) fun _ => rfl
    exact ⟨_, .enqueue h hu (hc.deliver hwill (by simp [willSend]) rfl (by simp [hu, holder])
      (by simp [hu, hasDetached]) (by simp [hu]) (by simp [hu, taken]) (by simp [hu, acknowledger])
      (by simp [hu, isSettled]) hp) ⟨hcalls.busy, hcalls.running⟩ (.over rfl)
      (fun hne _ => absurd rfl hne) hmessage hroom rfl rfl rfl rfl rfl rfl h0 (by simp [h0]) hp
      hp id (by simp) (by simp) (by simp [prepared])⟩

theorem call_effect (h : Good s) (hs : call s a = some s') : ∃ c b, Effect s s' (.call a) c b := by
  unfold ThreadLifecycle.call at hs
  cases hb : s.busy a with
  | none =>
    rw [hb] at hs
    cases hs
  | some c =>
    have hflight := (h.calls.busy a c).mp hb
    simp only [hb] at hs
    cases hu : (s.blocks c).usage <;> simp only [hu] at hs
    case joining x step =>
      obtain rfl : x = a := by simpa [hu, inFlight] using hflight
      exact ⟨c, join_effect h hu hs⟩
    case detaching x step =>
      obtain rfl : x = a := by simpa [hu, inFlight] using hflight
      exact ⟨c, detach_effect h hu hs⟩
    case fresh | creating _ | joined | detached | failed => cases hs

theorem joinFails_effect (h : Good s) {aborted : Bool} (hs : joinFails s a aborted = some s') :
    ∃ c b, Effect s s' (.joinFails a aborted) c b := by
  unfold ThreadLifecycle.joinFails at hs
  cases hb : s.busy a with
  | none =>
    rw [hb] at hs
    cases hs
  | some c =>
    have hflight := (h.calls.busy a c).mp hb
    have hc := h.sound c
    simp only [hb] at hs
    split at hs
    · rename_i hu
      have hp : (s.blocks c).phase ≠ .absent := hc.present (by simp [hu])
      split at hs
      · cases hs
        have hsound := hc.fail hu (Nat.le_refl (s.blocks c).completion)
        exact ⟨c, _, .advance h rfl hu hsound (h.calls.finish hflight (by simp [inFlight]) fun _ => rfl)
          (.over rfl) rfl rfl rfl rfl rfl rfl rfl (fun _ => rfl) hp rfl (by simp [acknowledged])
          (by simp) (by simp [prepared])⟩
      · split at hs
        · cases hs
          simp only [State.change, State.finish, State.setUsage, set_set, set_self]
          exact ⟨c, _, .advance h rfl hu (hc.fail hu (Nat.sub_le ..))
            (h.calls.finish hflight (by simp [inFlight]) fun _ => rfl) (.over rfl) rfl rfl rfl rfl rfl rfl
            rfl (fun _ => rfl) hp rfl (by simp [acknowledged]) (by simp) (by simp [prepared])⟩
        · cases hs
    · cases hs

theorem Effect.begin (h : Good s) (hmessage : message s i = none) {u : Usage} (ha : s.inUserCode a = true)
    (hp : (s.blocks c).phase ≠ .absent) (hu : (s.blocks c).usage = .fresh)
    (hmove : Move a .fresh u) (hin : inFlight u = some a) (hturn : Turn s i c .fresh u) :
    Effect s ((s.setUsage c u).setBusy a c) i c { s.blocks c with usage := u } := by
  have hholder : holder u = none := by cases hmove <;> rfl
  have hcalls : Calls ((s.setUsage c u).setBusy a c) :=
    h.calls.begin ha (by simp [hu, inFlight]) hin fun _ => rfl
  exact .move h hmessage hu hmove ((h.sound c).advance hu hmove hholder hp) hcalls hturn hp
    rfl rfl rfl rfl rfl rfl

theorem callJoin_effect (h : Good s) (hs : callJoin s a c = some s') :
    ∃ b, Effect s s' (.join a c) c b := by
  unfold ThreadLifecycle.callJoin at hs
  split at hs
  · rename_i hguard
    simp only [Bool.and_eq_true, decide_eq_true_eq] at hguard
    obtain ⟨⟨ha, hp⟩, hu⟩ := hguard
    split at hs
    · cases hs
      have hmove : Move a .fresh .failed := .joinSelf
      exact ⟨_, .move h rfl hu hmove ((h.sound c).advance hu hmove rfl hp)
        (h.calls.set (by simp [hu, inFlight]) fun _ => rfl) (.over rfl) hp rfl rfl rfl rfl rfl rfl⟩
    · rename_i hne
      cases hs
      exact ⟨_, .begin h rfl ha hp hu .join rfl (.join rfl hne)⟩
  · cases hs

theorem callDetach_effect (h : Good s) (hs : callDetach s a c = some s') :
    ∃ b, Effect s s' (.detach a c) c b := by
  unfold ThreadLifecycle.callDetach at hs
  split at hs
  · rename_i hguard
    simp only [Bool.and_eq_true, decide_eq_true_eq] at hguard
    obtain ⟨⟨ha, hp⟩, hu⟩ := hguard
    cases hs
    exact ⟨_, .begin h rfl ha hp hu .detach rfl .detach⟩
  · cases hs

theorem create_effect (h : Good s) (hs : threadCreate s a true = some s') :
    ∃ c b, Effect s s' (.create a true) c b := by
  obtain ⟨c, hb, hu, ⟨-, rfl⟩ | ⟨hcreated, -⟩⟩ := threadCreate_cases hs
  · have hp : (s.blocks c).phase = .registered := by rw [(h.sound c).new_block hu]
    have hcalls : Calls ((s.set c { s.blocks c with phase := .start, usage := .fresh }).setBusy a none) :=
      h.calls.finish ((h.calls.busy a c).mp hb) rfl (by simp [hp])
    exact ⟨c, _,
      { toFramed := .steady h.books rfl rfl rfl rfl rfl rfl rfl (fun _ => rfl) ⟨by simp [hp], by simp⟩
          (by simp [hp]) (by simp [hu]) (by simp) (by simp [prepared])
        sound := (h.sound c).create hu
        calls := hcalls
        idle := fun _ hstart => absurd rfl hstart
        usage := .over rfl
        quiet := .inl ⟨rfl, rfl, rfl⟩
        counter := rfl }⟩
  · cases hcreated

theorem Effect.message_registered (he : Effect s s' i c b) (hk : message s i = some k) :
    k = c ∧ c ∈ s.registry := by
  rcases he.quiet with ⟨hmessage, _, _⟩ | ⟨hmessage, _, hqueue⟩
  · simp [hmessage] at hk
  · refine ⟨by simpa [hmessage, eq_comm] using hk, ?_⟩
    rcases he.queue with hsame | ⟨_, _, hc, _⟩
    · simp [hsame] at hqueue
    · exact hc

/-- Every step registers a block, unregisters one without a thread, is one of the reaper, or has an
effect on one block. -/
inductive Kind (s s' : State) : Action → Prop
  | register {a : Agent} {c : ControlId} (hs : registerThread s a c = some s') :
    Kind s s' (.register a c)
  | unregister {a : Agent} (hs : threadCreate s a false = some s') : Kind s s' (.create a false)
  | reap (hs : reaperEntry s = some s') : Kind s s' .reap
  | effect {i : Action} {c : ControlId} {b : Block} (he : Effect s s' i c b) : Kind s s' i

theorem step_kind (h : Good s) (hs : step s i = some s') : Kind s s' i := by
  have heffect : ∀ {i}, (∃ c b, Effect s s' i c b) → Kind s s' i := by
    rintro i ⟨c, b, he⟩
    exact .effect he
  cases i with
  | register a c => exact .register hs
  | create a created =>
    cases created with
    | false => exact .unregister hs
    | true => exact heffect (create_effect h hs)
  | reap => exact .reap hs
  | join a c => exact heffect ⟨c, callJoin_effect h hs⟩
  | detach a c => exact heffect ⟨c, callDetach_effect h hs⟩
  | returns c => exact heffect ⟨c, returns_effect h hs⟩
  | entry c => exact heffect ⟨c, entry_effect h hs⟩
  | call a => exact heffect (call_effect h hs)
  | joinFails a aborted => exact heffect (joinFails_effect h hs)

end

end SimPLCity.BlockEffects
