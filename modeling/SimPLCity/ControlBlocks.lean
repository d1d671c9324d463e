import SimPLCity.ThreadLifecycle
import SimPLCity.Runs

/-! What the flags, the mutex, the semaphore and the messages of one control block have to do
with where its thread and the user of its handle are. -/

namespace SimPLCity.ControlBlocks
open ThreadLifecycle

/-- `finished` has been set. -/
def marked : Phase → Bool
  | .unlock _ | .put _ | .send | .exit | .completed => true
  | _ => false

/-- The completion semaphore has been put. -/
def posted : Phase → Bool
  | .send | .exit | .completed => true
  | _ => false

/-- The thread owns the lifecycle mutex. -/
def holds : Phase → Bool
  | .mark | .unlock _ => true
  | _ => false

/-- The thread has undertaken to send the message. -/
def sends : Phase → Bool
  | .unlock true | .put true | .send => true
  | _ => false

@[simp] theorem sends_unlock (enqueue : Bool) : sends (.unlock enqueue) = enqueue := by
  cases enqueue <;> rfl

@[simp] theorem sends_put (enqueue : Bool) : sends (.put enqueue) = enqueue := by
  cases enqueue <;> rfl

/-- `thread_entry` has looked up its control block. -/
def entered : Phase → Bool
  | .absent | .registered | .start => false
  | _ => true

def inFlight : Usage → Option Agent
  | .creating a | .joining a _ | .detaching a _ => some a
  | _ => none

/-- The caller that owns the lifecycle mutex. -/
def holder : Usage → Option Agent
  | .joining a .mark | .joining a .refuse | .joining a .unlock => some a
  | .detaching a .mark | .detaching a .refuse | .detaching a (.unlock _) => some a
  | _ => none

/-- The caller has undertaken to send the message. -/
def willSend : Usage → Bool
  | .joining _ .unlock | .joining _ .send => true
  | .detaching _ (.unlock true) | .detaching _ .send => true
  | _ => false

def hasDetached : Usage → Bool
  | .detaching _ (.unlock _) | .detaching _ .send | .detached => true
  | _ => false

/-- The joiner has taken the completion token. -/
def taken : Usage → Bool
  | .joining _ .wait => false
  | .joining _ _ | .joined => true
  | _ => false

/-- The joiner has left its semaphore in the block. -/
def acknowledger : Usage → Option Agent
  | .joining a .unlock | .joining a .send | .joining a .acknowledge => some a
  | _ => none

/-- The joiner has made its semaphore and the message is not sent. -/
def prepared : Usage → Option Agent
  | .joining a .lock | .joining a .mark | .joining a .refuse | .joining a .unlock
  | .joining a .send => some a
  | _ => none

def acknowledged : Usage → Option Agent
  | .joining a .acknowledge => some a
  | _ => none

/-- The caller may still use the block. -/
def touches : Usage → Option Agent
  | .joining _ .acknowledge => none
  | .creating a | .joining a _ | .detaching a _ => some a
  | _ => none

/-- The call has left the block to the reaper. -/
def isSettled : Usage → Bool
  | .joining _ .acknowledge | .joined | .detached => true
  | _ => false

/-- A block is in order: `queued` says that exactly one message is sent, or about to be sent by
exactly one party, once `cleanup_queued` is set, and none before. -/
structure Sound (c : ControlId) (b : Block) : Prop where
  control : entered b.phase = true → b.control = c
  finished : b.finished = marked b.phase
  detached : b.detached = hasDetached b.usage
  mutex : b.lifecycleMutex = (holder b.usage).or (if holds b.phase then some (.thread c) else none)
  exclusive : holds b.phase = true → holder b.usage = none
  token : b.usage ≠ .failed → b.completion + (taken b.usage).toNat = (posted b.phase).toNat
  tokens : b.completion ≤ (posted b.phase).toNat
  queued : b.sent + (willSend b.usage).toNat + (sends b.phase).toNat = b.cleanupQueued.toNat
  claimed : b.detached = true → b.finished = true → b.cleanupQueued = true
  ack : ∀ a, acknowledger b.usage = some a → b.cleanupAck = some a
  ackUser : ∀ a, b.cleanupAck = some a → acknowledger b.usage = some a ∨ b.usage = .joined
  sentJoin : (acknowledged b.usage).isSome = true ∨ b.usage = .joined → b.sent = 1
  settled : b.sent = 1 ∨ sends b.phase = true → isSettled b.usage = true
  sentMarked : b.cleanupQueued = true → b.finished = true
  absent : b.phase = .absent → b = {}
  created : (b.phase ≠ .registered ∧ ∀ a, b.usage ≠ .creating a) ∨
    ∃ a, b = { registryId := b.registryId, phase := .registered, usage := .creating a }

section
variable {c : ControlId} {b : Block} {a : Agent} {enqueue : Bool}

theorem Sound.sent_le (h : Sound c b) : b.sent ≤ 1 := by
  have hsum := h.queued
  have hle := b.cleanupQueued.toNat_le
  omega

theorem Sound.sent_once (h : Sound c b) (hs : b.sent = 1) :
    willSend b.usage = false ∧ sends b.phase = false ∧ b.cleanupQueued = true := by
  have hsum := h.queued
  rw [hs] at hsum
  cases hu : willSend b.usage <;> cases hp : sends b.phase <;> cases hq : b.cleanupQueued <;>
    simp_all

theorem Sound.unqueued (h : Sound c b) (hq : b.cleanupQueued = false) :
    b.sent = 0 ∧ willSend b.usage = false ∧ sends b.phase = false := by
  have hsum := h.queued
  simp only [hq, Bool.toNat_false, Nat.add_eq_zero_iff, Bool.toNat_eq_zero] at hsum
  exact ⟨hsum.1.1, hsum.1.2, hsum.2⟩

theorem sound_default (c : ControlId) : Sound c {} := by
  constructor <;> simp [entered, marked, hasDetached, holder, holds, taken, posted, willSend, sends,
    acknowledger, acknowledged, isSettled]

theorem sound_registered (c : ControlId) (registryId : Nat) (a : Agent) :
    Sound c { registryId := registryId, phase := .registered, usage := .creating a } := by
  constructor <;> simp [entered, marked, hasDetached, holder, holds, taken, posted, willSend, sends,
    acknowledger, acknowledged, isSettled]

theorem Sound.not_creating (h : Sound c b) (hp : b.phase ≠ .registered) (a : Agent) :
    b.usage ≠ .creating a := by
  rcases h.created with ⟨-, hu⟩ | ⟨x, hb⟩
  · exact hu a
  · exact absurd (congrArg (·.phase) hb) hp

theorem Sound.not_registered (h : Sound c b) (hu : ∀ a, b.usage ≠ .creating a) :
    b.phase ≠ .registered := by
  rcases h.created with ⟨hp, -⟩ | ⟨x, hb⟩
  · exact hp
  · exact absurd (congrArg (·.usage) hb) (hu x)

theorem Sound.new_block (h : Sound c b) (hu : b.usage = .creating a) :
    b = { registryId := b.registryId, phase := .registered, usage := .creating a } := by
  rcases h.created with ⟨-, hno⟩ | ⟨x, hb⟩
  · exact absurd hu (hno a)
  · have hx : Usage.creating x = .creating a := (congrArg (·.usage) hb).symm.trans hu
    rwa [hx] at hb

theorem Sound.create (h : Sound c b) (hu : b.usage = .creating a) :
    Sound c { b with phase := .start, usage := .fresh } := by
  rw [h.new_block hu]
  constructor <;> simp [entered, marked, hasDetached, holder, holds, taken, posted, willSend, sends,
    acknowledger, acknowledged, isSettled]

theorem Sound.proceed (h : Sound c b) {p : Phase} (hmarked : marked p = marked b.phase)
    (hposted : posted p = posted b.phase) (hholds : holds p = holds b.phase)
    (hsends : sends p = sends b.phase) (hentered : entered p = entered b.phase)
    (hp : p ≠ .absent) (hregistered : b.phase ≠ .registered ∧ p ≠ .registered) :
    Sound c { b with phase := p } :=
  { h with
    control := by simpa only [hentered] using h.control
    finished := by simpa only [hmarked] using h.finished
    mutex := by simpa only [hholds] using h.mutex
    exclusive := by simpa only [hholds] using h.exclusive
    token := by simpa only [hposted] using h.token
    tokens := by simpa only [hposted] using h.tokens
    queued := by simpa only [hsends] using h.queued
    settled := by simpa only [hsends] using h.settled
    absent := fun h => absurd h hp
    created := .inl ⟨hregistered.2, h.not_creating hregistered.1⟩ }

theorem Sound.start (h : Sound c b) (hp : b.phase = .start) :
    Sound c { b with control := c, phase := .body } :=
  { h with
    control := fun _ => rfl
    finished := by simpa [hp, marked] using h.finished
    mutex := by simpa [hp, holds] using h.mutex
    exclusive := by simp [holds]
    token := by simpa [hp, posted] using h.token
    tokens := by simpa [hp, posted] using h.tokens
    queued := by simpa [hp, sends] using h.queued
    settled := by simpa [hp, sends] using h.settled
    absent := by simp
    created := .inl ⟨by simp, h.not_creating (by simp [hp])⟩ }

theorem Sound.lock (h : Sound c b) (hp : b.phase = .lock) (hm : b.lifecycleMutex = none) :
    Sound c { b with lifecycleMutex := some (.thread c), phase := .mark } := by
  have hfree : holder b.usage = none := by simpa [hp, hm, holds] using h.mutex.symm
  exact { h with
    control := by simpa [hp, entered] using h.control
    finished := by simpa [hp, marked] using h.finished
    mutex := by simp [hfree, holds]
    exclusive := fun _ => hfree
    token := by simpa [hp, posted] using h.token
    tokens := by simpa [hp, posted] using h.tokens
    queued := by simpa [hp, sends] using h.queued
    settled := by simpa [hp, sends] using h.settled
    absent := by simp
    created := .inl ⟨by simp, h.not_creating (by simp [hp])⟩ }

theorem Sound.mark (h : Sound c b) (hp : b.phase = .mark) :
    Sound c { b with
      finished := true
      cleanupQueued := b.cleanupQueued || (b.detached && !b.cleanupQueued)
      phase := .unlock (b.detached && !b.cleanupQueued) } := by
  have hqueued : b.cleanupQueued = false := by
    cases hq : b.cleanupQueued with
    | false => rfl
    | true => simpa [h.finished, hp, marked] using h.sentMarked hq
  obtain ⟨hsent, hwill, _⟩ := h.unqueued hqueued
  exact { h with
    control := by simpa [hp, entered] using h.control
    finished := by simp [marked]
    mutex := by simpa [hp, holds] using h.mutex
    exclusive := by simpa [hp, holds] using h.exclusive
    token := by simpa [hp, posted] using h.token
    tokens := by simpa [hp, posted] using h.tokens
    queued := by cases hd : b.detached <;> simp [hsent, hwill, hqueued, sends]
    claimed := by simp +contextual
    settled := fun hs => by
      have hd : b.detached = true := by
        rcases hs with h1 | h1
        · simp only [hsent] at h1
          cases h1
        · cases hd : b.detached with
          | true => rfl
          | false => simp [hd, sends] at h1
      have hfree := h.exclusive (by simp [hp, holds])
      rw [h.detached] at hd
      revert hd hwill hfree
      cases b.usage with
      | detaching _ step => cases step <;> simp [hasDetached, holder, willSend]
      | _ => simp [hasDetached, isSettled]
    sentMarked := by simp
    absent := by simp
    created := .inl ⟨by simp, h.not_creating (by simp [hp])⟩ }

theorem Sound.unlock (h : Sound c b) (hp : b.phase = .unlock enqueue) :
    Sound c { b with lifecycleMutex := none, phase := .put enqueue } := by
  have hfree : holder b.usage = none := h.exclusive (by simp [hp, holds])
  exact { h with
    control := by simpa [hp, entered] using h.control
    finished := by simpa [hp, marked] using h.finished
    mutex := by simp [hfree, holds]
    exclusive := by simp [holds]
    token := by simpa [hp, posted] using h.token
    tokens := by simpa [hp, posted] using h.tokens
    queued := by cases enqueue <;> simpa [hp, sends] using h.queued
    settled := by cases enqueue <;> simpa [hp, sends] using h.settled
    absent := by simp
    created := .inl ⟨by simp, h.not_creating (by simp [hp])⟩ }

theorem Sound.put (h : Sound c b) (hp : b.phase = .put enqueue) :
    Sound c { b with
      completion := b.completion + 1
      phase := if enqueue then .send else .exit } := by
  have hempty : b.completion = 0 := by simpa [hp, posted] using h.tokens
  have htaken : b.usage ≠ .failed → taken b.usage = false := by simpa [hp, hempty, posted] using h.token
  cases enqueue <;> exact { h with
    control := by simpa [hp, entered] using h.control
    finished := by simpa [hp, marked] using h.finished
    mutex := by simpa [hp, holds] using h.mutex
    exclusive := by simp [holds]
    token := fun hu => by simp [hempty, htaken hu, posted]
    tokens := by simp [hempty, posted]
    queued := by simpa [hp, sends] using h.queued
    settled := by simpa [hp, sends] using h.settled
    absent := by simp
    created := .inl ⟨by simp, h.not_creating (by simp [hp])⟩ }

theorem Sound.send (h : Sound c b) (hp : b.phase = .send) :
    Sound c { b with sent := b.sent + 1, phase := .exit } := by
  have hsum := h.queued
  have hle := b.cleanupQueued.toNat_le
  simp only [hp, sends, Bool.toNat_true] at hsum
  have hsent : b.sent = 0 := by omega
  exact { h with
    control := by simpa [hp, entered] using h.control
    finished := by simpa [hp, marked] using h.finished
    mutex := by simpa [hp, holds] using h.mutex
    exclusive := by simp [holds]
    token := by simpa [hp, posted] using h.token
    tokens := by simpa [hp, posted] using h.tokens
    queued := by
      simp only [sends, Bool.toNat_false]
      omega
    sentJoin := fun _ => by simp [hsent]
    settled := fun _ => h.settled (Or.inr (by simp [hp, sends]))
    absent := by simp
    created := .inl ⟨by simp, h.not_creating (by simp [hp])⟩ }

/-- The steps of a caller that change nothing in the block but the owner of the mutex. -/
inductive Move (a : Agent) : Usage → Usage → Prop
  | join : Move a .fresh (.joining a .wait)
  | joinSelf : Move a .fresh .failed
  | joinLock : Move a (.joining a .lock) (.joining a .mark)
  | joinMark : Move a (.joining a .mark) (.joining a .refuse)
  | joinRefuse : Move a (.joining a .refuse) .failed
  | joinUnlock : Move a (.joining a .unlock) (.joining a .send)
  | detach : Move a .fresh (.detaching a .lock)
  | detachLock : Move a (.detaching a .lock) (.detaching a .mark)
  | detachMark : Move a (.detaching a .mark) (.detaching a .refuse)
  | detachRefuse : Move a (.detaching a .refuse) .failed
  | detachUnlock : Move a (.detaching a (.unlock true)) (.detaching a .send)
  | detachOver : Move a (.detaching a (.unlock false)) .detached

theorem Sound.move (h : Sound c b) {u v : Usage} (hu : b.usage = u) (hmove : Move a u v)
    {m : Option Agent} (hmutex : m = (holder v).or (if holds b.phase then some (.thread c) else none))
    (hexclusive : holds b.phase = true → holder v = none) (hp : b.phase ≠ .absent) :
    Sound c { b with lifecycleMutex := m, usage := v } := by
  have hdetached : hasDetached v = hasDetached b.usage := by cases hmove <;> rw [hu] <;> rfl
  have hwill : willSend v = willSend b.usage := by cases hmove <;> rw [hu] <;> rfl
  have htoken : v ≠ .failed → b.usage ≠ .failed ∧ taken v = taken b.usage := by
    cases hmove <;> simp [hu, taken]
  have hack : acknowledger v = acknowledger b.usage := by cases hmove <;> rw [hu] <;> rfl
  have hopen : isSettled b.usage = false := by cases hmove <;> rw [hu] <;> rfl
  have hsent : (acknowledged v).isSome = false ∧ v ≠ .joined := by
    cases hmove <;> simp [acknowledged]
  have hold : ∀ a, b.usage ≠ .creating a := by cases hmove <;> simp [hu]
  have hnew : ∀ a, v ≠ .creating a := by cases hmove <;> simp
  exact { h with
    detached := by simpa only [hdetached] using h.detached
    mutex := hmutex
    exclusive := hexclusive
    token := fun hv => by simpa only [(htoken hv).2] using h.token (htoken hv).1
    queued := by simpa only [hwill] using h.queued
    ack := by simpa only [hack] using h.ack
    ackUser := fun a ha => Or.inl (by
      rw [hack]
      exact (h.ackUser a ha).resolve_right fun hj => by simp [hj, isSettled] at hopen)
    sentJoin := by simp [hsent]
    settled := fun hs => absurd (h.settled hs) (by simp [hopen])
    absent := fun h => absurd h hp
    created := .inl ⟨h.not_registered hold, hnew⟩ }

theorem Sound.advance (h : Sound c b) {u v : Usage} (hu : b.usage = u) (hmove : Move a u v)
    (hholder : holder v = holder u) (hp : b.phase ≠ .absent) : Sound c { b with usage := v } :=
  h.move hu hmove (by rw [hholder, ← hu, h.mutex]) (by rw [hholder, ← hu]; exact h.exclusive) hp

theorem Sound.present (h : Sound c b) (hu : b.usage ≠ .fresh) : b.phase ≠ .absent := fun hp =>
  hu (by rw [h.absent hp])

theorem Sound.joinWait (h : Sound c b) (hu : b.usage = .joining a .wait) (hc : 0 < b.completion) :
    Sound c { b with completion := b.completion - 1, usage := .joining a .lock } :=
  { h with
    detached := by simpa [hu, hasDetached] using h.detached
    mutex := by simpa [hu, holder] using h.mutex
    exclusive := by simp [holder]
    token := fun _ => by
      have := h.token (by simp [hu])
      simp only [hu, taken, Bool.toNat_false, Bool.toNat_true] at this ⊢
      omega
    tokens := Nat.le_trans (Nat.sub_le ..) h.tokens
    queued := by simpa [hu, willSend] using h.queued
    ack := by simp [acknowledger]
    ackUser := by simpa [hu, acknowledger] using h.ackUser
    sentJoin := by simp [acknowledged]
    settled := fun hs => absurd (h.settled hs) (by simp [hu, isSettled])
    absent := fun hp => absurd hp (h.present (by simp [hu]))
    created := .inl ⟨h.not_registered (by simp [hu]), by simp⟩ }

theorem Sound.acquire (h : Sound c b) {u v : Usage} (hu : b.usage = u) (hmove : Move a u v)
    (hm : b.lifecycleMutex = none) (hholder : holder v = some a) (hp : b.phase ≠ .absent) :
    Sound c { b with lifecycleMutex := some a, usage := v } := by
  have hfree : holds b.phase = false := by
    have := h.mutex
    rw [hm] at this
    cases hb : holds b.phase with
    | false => rfl
    | true => simp [hb] at this
  exact h.move hu hmove (by simp [hholder]) (by simp [hfree]) hp

theorem Sound.release (h : Sound c b) {u v : Usage} (hu : b.usage = u) (hmove : Move a u v)
    (hholder : holder u = some a) (hfree : holder v = none) (hp : b.phase ≠ .absent) :
    Sound c { b with lifecycleMutex := none, usage := v } := by
  have hnot : holds b.phase = false := by
    cases hb : holds b.phase with
    | false => rfl
    | true => simp [← hu, h.exclusive hb] at hholder
  exact h.move hu hmove (by simp [hfree, hnot]) (by simp [hnot]) hp

theorem Sound.joinMark (h : Sound c b) (hu : b.usage = .joining a .mark)
    (hq : b.cleanupQueued = false) :
    Sound c { b with cleanupAck := some a, cleanupQueued := true, usage := .joining a .unlock } := by
  obtain ⟨hsent, _, hsends⟩ := h.unqueued hq
  have htoken := h.token (by simp [hu])
  have hposted : posted b.phase = true := by
    cases hp : posted b.phase with
    | true => rfl
    | false => simp [hu, hp, taken] at htoken
  exact { h with
    detached := by simpa [hu, hasDetached] using h.detached
    mutex := by simpa [hu, holder] using h.mutex
    exclusive := by simpa [hu, holder] using h.exclusive
    token := fun _ => by simpa [hu, taken] using htoken
    queued := by simp [hsent, hsends, willSend]
    claimed := by simp
    ack := by simp [acknowledger]
    ackUser := by simp [acknowledger]
    sentJoin := by simp [acknowledged]
    settled := fun hs => absurd (h.settled hs) (by simp [hu, isSettled])
    sentMarked := fun _ => by
      rw [h.finished]
      revert hposted
      cases b.phase <;> simp [posted, marked]
    absent := fun hp => absurd hp (h.present (by simp [hu]))
    created := .inl ⟨h.not_registered (by simp [hu]), by simp⟩ }

theorem Sound.detachMark (h : Sound c b) (hu : b.usage = .detaching a .mark)
    (hq : b.cleanupQueued = false) :
    Sound c { b with
      detached := true
      cleanupQueued := b.cleanupQueued || b.finished
      usage := .detaching a (.unlock b.finished) } := by
  obtain ⟨hsent, _, hsends⟩ := h.unqueued hq
  exact { h with
    detached := by simp [hasDetached]
    mutex := by simpa [hu, holder] using h.mutex
    exclusive := by simpa [hu, holder] using h.exclusive
    token := by simpa [hu, taken] using h.token
    queued := by cases hf : b.finished <;> simp [hsent, hsends, hq, willSend]
    claimed := by simp +contextual
    ack := by simp [acknowledger]
    ackUser := by simpa [hu, acknowledger] using h.ackUser
    sentJoin := by simp [acknowledged]
    settled := fun hs => absurd (h.settled hs) (by simp [hu, isSettled])
    sentMarked := by simp [hq]
    absent := fun hp => absurd hp (h.present (by simp [hu]))
    created := .inl ⟨h.not_registered (by simp [hu]), by simp⟩ }

theorem Sound.deliver (h : Sound c b) {u : Usage} (hwill : willSend b.usage = true)
    (hnot : willSend u = false) (hsettled : isSettled u = true) (hholder : holder u = holder b.usage)
    (hdetached : hasDetached u = hasDetached b.usage) (hfailed : b.usage ≠ .failed)
    (htaken : taken u = taken b.usage) (hack : acknowledger u = acknowledger b.usage)
    (hopen : isSettled b.usage = false) (hp : b.phase ≠ .absent) :
    Sound c { b with sent := b.sent + 1, usage := u } := by
  have hsum := h.queued
  have hle := b.cleanupQueued.toNat_le
  simp only [hwill, Bool.toNat_true] at hsum
  have hsent : b.sent = 0 := by omega
  exact { h with
    detached := by simpa only [hdetached] using h.detached
    mutex := by simpa only [hholder] using h.mutex
    exclusive := by simpa only [hholder] using h.exclusive
    token := fun _ => by simpa only [htaken] using h.token hfailed
    queued := by
      simp only [hnot, Bool.toNat_false]
      omega
    ack := by simpa only [hack] using h.ack
    ackUser := fun a ha => Or.inl (by
      rw [hack]
      exact (h.ackUser a ha).resolve_right fun hj => by simp [hj, isSettled] at hopen)
    sentJoin := fun _ => by simp [hsent]
    settled := fun _ => hsettled
    absent := fun h => absurd h hp
    created := .inl ⟨h.not_registered fun a ha => by simp [ha, willSend] at hwill,
      fun a ha => by rw [show u = .creating a from ha] at hsettled; cases hsettled⟩ }

theorem Sound.joined (h : Sound c b) (hu : b.usage = .joining a .acknowledge) :
    Sound c { b with usage := .joined } :=
  { h with
    detached := by simpa [hu, hasDetached] using h.detached
    mutex := by simpa [hu, holder] using h.mutex
    exclusive := by simp [holder]
    token := by simpa [hu, taken] using h.token
    queued := by simpa [hu, willSend] using h.queued
    ack := by simp [acknowledger]
    ackUser := by simp [acknowledger]
    sentJoin := fun _ => h.sentJoin (by simp [hu, acknowledged])
    settled := fun _ => rfl
    absent := fun hp => absurd hp (h.present (by simp [hu]))
    created := .inl ⟨h.not_registered (by simp [hu]), by simp⟩ }

theorem Sound.fail (h : Sound c b) (hu : b.usage = .joining a .wait) {n : Nat}
    (hn : n ≤ b.completion) : Sound c { b with completion := n, usage := .failed } :=
  { h with
    detached := by simpa [hu, hasDetached] using h.detached
    mutex := by simpa [hu, holder] using h.mutex
    exclusive := by simp [holder]
    token := by simp [taken]
    tokens := Nat.le_trans hn h.tokens
    queued := by simpa [hu, willSend] using h.queued
    ack := by simp [acknowledger]
    ackUser := by simpa [hu, acknowledger] using h.ackUser
    sentJoin := by simp [acknowledged]
    settled := fun hs => absurd (h.settled hs) (by simp [hu, isSettled])
    absent := fun hp => absurd hp (h.present (by simp [hu]))
    created := .inl ⟨h.not_registered (by simp [hu]), by simp⟩ }

theorem settled_untouched {u : Usage} (h : isSettled u = true) :
    (∀ a, touches u ≠ some a) ∧ holder u = none ∧ willSend u = false := by
  cases u with
  | joining a step => cases step <;> simp_all [isSettled, touches, holder, willSend]
  | creating a | detaching a step => simp [isSettled] at h
  | _ => simp [touches, holder, willSend]

theorem Sound.unused (h : Sound c b) (h1 : b.sent = 1) (hp : b.phase = .completed) :
    (∀ a, touches b.usage ≠ some a) ∧ b.lifecycleMutex = none := by
  obtain ⟨htouches, hholder, _⟩ := settled_untouched (h.settled (Or.inl h1))
  exact ⟨htouches, by simp [h.mutex, hholder, hp, holds]⟩

theorem Sound.sent_of_used (h : Sound c b) (hu : b.usage = .joined ∨ b.usage = .detached)
    (hp : b.phase = .exit ∨ b.phase = .completed) : b.sent = 1 := by
  rcases hu with hu | hu
  · exact h.sentJoin (Or.inr hu)
  · have hfinished : b.finished = true := by
      rw [h.finished]
      rcases hp with hp | hp <;> simp [hp, marked]
    have hqueued := h.claimed (by simp [h.detached, hu, hasDetached]) hfinished
    have hsends : sends b.phase = false := by rcases hp with hp | hp <;> simp [hp, sends]
    simpa [hqueued, hu, willSend, hsends] using h.queued

end

end SimPLCity.ControlBlocks
