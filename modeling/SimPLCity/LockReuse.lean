import SimPLCity.LockPool
import SimPLCity.Runs
import Mathlib.Data.List.Nodup
import Mathlib.Data.List.Perm.Subperm

/-! The locks of the pool are distinct, their mutexes exist, and closed ones are used again. -/

namespace SimPLCity.LockReuse
open LockPool

/-- The agent is between `lock_dynamic_pool` and `unlock_dynamic_pool`. -/
def critical : Place → Bool
  | .initScan _ | .initAllocate | .initCreate _ | .initUnlock _ | .failUnlock _ | .closeScan _ _
  | .closeUnlock => true
  | _ => false

/-- The agent is in `runtime_libc_initialize`. -/
def initializing : Place → Bool
  | .createStatic _ | .createDynamic _ | .createPool => true
  | _ => false

/-- The node that the agent has marked and not yet handed out, or that it is about to unmark. -/
def inHand : Place → Option Nat
  | .initCreate n | .initUnlock n | .closeLock n | .closeScan n _ => some n
  | .failUnlock n | .failed n => n
  | _ => none

/-- The node that the agent is creating or whose mutex it could not create. -/
def making : Place → Option Nat
  | .initCreate n => some n
  | .failUnlock n | .failed n => n
  | _ => none

/-- What the loops have found out. -/
def Scanned (s : State) : Place → Prop
  | .initScan rest => (∀ n ∈ rest, n ∈ s.dynamicLocks) ∧
      ∀ n ∈ s.dynamicLocks, n ∉ rest → (s.nodes n).allocated = true
  | .initAllocate => ∀ n ∈ s.dynamicLocks, (s.nodes n).allocated = true
  | .closeScan n rest => n ∈ rest
  | .createStatic _ => s.libcLocksReady = false
  | .createDynamic rest => s.libcLocksReady = false ∧
      ∀ n ∈ s.dynamicLocks, n ∉ rest → (s.nodes n).created = true
  | .createPool => s.libcLocksReady = false ∧
      ∀ n ∈ s.dynamicLocks, (s.nodes n).created = true
  | _ => True

def State.owner (s : State) : Option Agent := if s.started then s.pool else some .boot

/-- The list of the nodes. -/
structure Listed (s : State) : Prop where
  nodup : s.dynamicLocks.Nodup
  fresh : ∀ n ∈ s.dynamicLocks, n < s.calloced
  dynamic : ∀ n ∈ s.dynamicLocks, (s.nodes n).dynamic = true
  count : s.dynamicLocks.length = s.calloced

def Marked (s : State) (n : Nat) : Prop := n ∈ s.dynamicLocks ∧ (s.nodes n).allocated = true

/-- A lock has one holder: the callers or one agent. -/
structure Held (s : State) : Prop where
  nodup : s.held.Nodup
  marked : ∀ n ∈ s.held, Marked s n
  inHand : ∀ a n, inHand (s.place a) = some n → Marked s n ∧ n ∉ s.held
  apart : ∀ a b n, LockReuse.inHand (s.place a) = some n → LockReuse.inHand (s.place b) = some n →
    a = b

structure Sound (s : State) : Prop where
  listed : Listed s
  held : Held s
  owner : ∀ a, critical (s.place a) = true ∨ initializing (s.place a) = true →
    State.owner s = some a
  early : s.started = false → ∀ t, s.place (.thread t) = .idle
  late : s.started = true → s.place .boot = .idle
  scanned : ∀ a, Scanned s (s.place a)
  usable : s.libcLocksReady = true → ∀ n ∈ s.dynamicLocks,
    (s.nodes n).created = true ∨ ∃ a, making (s.place a) = some n

section
variable {s s' : State} {a b : Agent} {p : Place} {n : Nat}

theorem go_other (s : State) (p : Place) (h : b ≠ a) : (s.go a p).place b = s.place b :=
  Function.update_of_ne h ..

theorem go_self (s : State) (p : Place) : (s.go a p).place a = p := Function.update_self ..

theorem scanned_other (hc : critical p = false) (hi : initializing p = false) : Scanned s p := by
  cases p <;> simp_all [critical, initializing, Scanned]

theorem Sound.others (hs : Sound s) (ha : critical (s.place a) = true ∨
    initializing (s.place a) = true) (h : b ≠ a) :
    critical (s.place b) = false ∧ initializing (s.place b) = false := by
  have hown := hs.owner a ha
  constructor
  · by_contra hb
    have := hs.owner b (.inl (by simpa using hb))
    rw [hown, Option.some.injEq] at this
    exact h this.symm
  · by_contra hb
    have := hs.owner b (.inr (by simpa using hb))
    rw [hown, Option.some.injEq] at this
    exact h this.symm

theorem Sound.running (hs : Sound s) (h : s.place a ≠ .idle) : s.started = decide (a ≠ .boot) := by
  cases hstarted : s.started with
  | true =>
    have : a ≠ .boot := fun ha => h (ha ▸ hs.late hstarted)
    simp [this]
  | false =>
    cases a with
    | boot => rfl
    | thread t => exact absurd (hs.early hstarted t) h

theorem Listed.congr (h : Listed s) (hlocks : s'.dynamicLocks = s.dynamicLocks)
    (hnodes : ∀ n, (s'.nodes n).dynamic = (s.nodes n).dynamic)
    (hcalloced : s'.calloced = s.calloced) : Listed s' := by
  obtain ⟨h1, h2, h3, h4⟩ := h
  constructor <;> simpa only [hlocks, hnodes, hcalloced]

theorem setNode_self (s : State) (node : Node) : (s.setNode n node).nodes n = node :=
  Function.update_self ..

theorem setNode_other {m : Nat} (s : State) (node : Node) (h : m ≠ n) :
    (s.setNode n node).nodes m = s.nodes m :=
  Function.update_of_ne h ..

theorem setNode_same {β : Type} (s : State) (node : Node) (field : Node → β)
    (h : field node = field (s.nodes n)) (m : Nat) :
    field ((s.setNode n node).nodes m) = field (s.nodes m) := by
  by_cases hmn : m = n
  · rw [hmn, setNode_self, h]
  · rw [setNode_other s node hmn]

theorem Sound.change (hs : Sound s) (hstarted : s'.started = s.started)
    (hplace : ∀ b, b ≠ a → s'.place b = s.place b) (hrun : s.started = decide (a ≠ .boot))
    (hlisted : Listed s') (hheld : Held s')
    (howner : critical (s'.place a) = true ∨ initializing (s'.place a) = true →
      State.owner s' = some a)
    (hothers : ∀ b, b ≠ a → critical (s.place b) = true ∨ initializing (s.place b) = true →
      State.owner s' = some b ∧ Scanned s' (s.place b))
    (hscanned : Scanned s' (s'.place a))
    (husable : s'.libcLocksReady = true → ∀ n ∈ s'.dynamicLocks,
      (s'.nodes n).created = true ∨ ∃ a, making (s'.place a) = some n) : Sound s' := by
  refine ⟨hlisted, hheld, fun b hb => ?_, fun hnot t => ?_, fun hyes => ?_, fun b => ?_, husable⟩
  · by_cases hba : b = a
    · rw [hba] at hb ⊢
      exact howner hb
    · rw [hplace b hba] at hb
      exact (hothers b hba hb).1
  · rw [hstarted] at hnot
    have hboot : a = .boot := by simpa [hnot] using hrun
    rw [hplace _ (by rw [hboot]; simp), hs.early hnot t]
  · rw [hstarted] at hyes
    have hthread : a ≠ .boot := by simpa [hyes] using hrun
    rw [hplace _ (Ne.symm hthread), hs.late hyes]
  · by_cases hba : b = a
    · rw [hba]
      exact hscanned
    · rw [hplace b hba]
      by_cases hb : critical (s.place b) = true ∨ initializing (s.place b) = true
      · exact (hothers b hba hb).2
      · exact scanned_other (by simpa using fun h => hb (.inl h))
          (by simpa using fun h => hb (.inr h))

theorem Held.move (h : Held s) (hplace : ∀ b, b ≠ a → s'.place b = s.place b)
    (hheld : s'.held = s.held) (hmarked : ∀ n, Marked s n → Marked s' n)
    (hhand : ∀ n, LockReuse.inHand (s'.place a) = some n →
      LockReuse.inHand (s.place a) = some n) : Held s' := by
  have hall : ∀ b n, LockReuse.inHand (s'.place b) = some n →
      LockReuse.inHand (s.place b) = some n := by
    intro b n hb
    by_cases hba : b = a
    · rw [hba] at hb ⊢
      exact hhand n hb
    · rwa [hplace b hba] at hb
  refine ⟨hheld ▸ h.nodup, fun n hn => ?_, fun b n hb => ?_, fun b c n hb hc => ?_⟩
  · rw [hheld] at hn
    exact hmarked n (h.marked n hn)
  · rw [hheld]
    exact (h.inHand b n (hall b n hb)).imp_left (hmarked n)
  · exact h.apart b c n (hall b n hb) (hall c n hc)

theorem Held.take (h : Held s) (hplace : ∀ b, b ≠ a → s'.place b = s.place b)
    (hheld : s'.held = s.held.erase n) (hmarked : ∀ m, Marked s m → Marked s' m)
    (hn : Marked s' n) (hhand : LockReuse.inHand (s'.place a) = some n)
    (hfree : ∀ b, LockReuse.inHand (s.place b) ≠ some n) : Held s' := by
  have hother : ∀ b m, b ≠ a → LockReuse.inHand (s'.place b) = some m →
      LockReuse.inHand (s.place b) = some m ∧ m ≠ n := by
    intro b m hba hb
    rw [hplace b hba] at hb
    exact ⟨hb, fun hmn => hfree b (hmn ▸ hb)⟩
  have hself : ∀ m, LockReuse.inHand (s'.place a) = some m → m = n := by
    intro m hm
    rw [hhand] at hm
    exact (Option.some.inj hm).symm
  refine ⟨hheld ▸ h.nodup.erase n, fun m hm => ?_, fun b m hb => ?_, fun b c m hb hc => ?_⟩
  · rw [hheld] at hm
    exact hmarked m (h.marked m (List.mem_of_mem_erase hm))
  · rw [hheld, h.nodup.mem_erase_iff]
    by_cases hba : b = a
    · obtain rfl := hself m (hba ▸ hb)
      exact ⟨hn, fun hne => hne.1 rfl⟩
    · obtain ⟨hm, hnot⟩ := h.inHand b m (hother b m hba hb).1
      exact ⟨hmarked m hm, fun hmem => hnot hmem.2⟩
  · by_cases hba : b = a
    · by_cases hca : c = a
      · rw [hba, hca]
      · exact absurd (hself m (hba ▸ hb)) (hother c m hca hc).2
    · by_cases hca : c = a
      · exact absurd (hself m (hca ▸ hc)) (hother b m hba hb).2
      · exact h.apart b c m (hother b m hba hb).1 (hother c m hca hc).1

theorem Held.drop (h : Held s) (hplace : ∀ b, b ≠ a → s'.place b = s.place b)
    (hhand : LockReuse.inHand (s.place a) = some n)
    (hhand' : LockReuse.inHand (s'.place a) = none)
    (hmarked : ∀ m, m ≠ n → Marked s m → Marked s' m)
    (hheld : s'.held = n :: s.held ∧ Marked s' n ∨ s'.held = s.held) : Held s' := by
  obtain ⟨-, hnot⟩ := h.inHand a n hhand
  have hne : ∀ m ∈ s.held, m ≠ n := fun m hm hmn => hnot (hmn ▸ hm)
  have hother : ∀ b m, LockReuse.inHand (s'.place b) = some m →
      LockReuse.inHand (s.place b) = some m ∧ m ≠ n := by
    intro b m hb
    have hba : b ≠ a := by
      rintro rfl
      rw [hhand'] at hb
      cases hb
    rw [hplace b hba] at hb
    exact ⟨hb, fun hmn => hba (h.apart b a n (hmn ▸ hb) hhand)⟩
  refine ⟨?_, fun m hm => ?_, fun b m hb => ?_,
    fun b c m hb hc => h.apart b c m (hother b m hb).1 (hother c m hc).1⟩
  · obtain ⟨hheld, -⟩ | hheld := hheld <;> rw [hheld]
    · exact List.nodup_cons.mpr ⟨hnot, h.nodup⟩
    · exact h.nodup
  · obtain ⟨hheld, hn⟩ | hheld := hheld <;> rw [hheld] at hm
    · rcases List.mem_cons.mp hm with rfl | hm
      · exact hn
      · exact hmarked m (hne m hm) (h.marked m hm)
    · exact hmarked m (hne m hm) (h.marked m hm)
  · obtain ⟨hb, hmn⟩ := hother b m hb
    obtain ⟨hm, hnotm⟩ := h.inHand b m hb
    refine ⟨hmarked m hmn hm, ?_⟩
    obtain ⟨hheld, -⟩ | hheld := hheld <;> rw [hheld]
    · exact fun hmem => (List.mem_cons.mp hmem).elim hmn hnotm
    · exact hnotm

theorem making_other (hs : Sound s) (hplace : ∀ b, b ≠ a → s'.place b = s.place b)
    (hmaking : ∀ n, making (s.place a) = some n → making (s'.place a) = some n)
    (hready : s.libcLocksReady = true) (hn : n ∈ s.dynamicLocks) :
    (s.nodes n).created = true ∨ ∃ b, making (s'.place b) = some n := by
  refine (hs.usable hready n hn).imp_right fun ⟨b, hb⟩ => ⟨b, ?_⟩
  by_cases hba : b = a
  · rw [hba] at hb ⊢
    exact hmaking n hb
  · rwa [hplace b hba]

theorem walk_step (hs : Sound s) (hrun : s.started = decide (a ≠ .boot))
    (hinside : critical p = true ∨ initializing p = true → State.owner s = some a)
    (hhand : ∀ n, inHand p = some n → inHand (s.place a) = some n)
    (hmaking : ∀ n, making (s.place a) = some n → making p = some n ∨ s.libcLocksReady = false)
    (hscanned : Scanned s p) : Sound (s.go a p) := by
  have hplace : ∀ b, b ≠ a → (s.go a p).place b = s.place b := fun _ => go_other s p
  refine hs.change rfl hplace hrun (hs.listed.congr rfl (fun _ => rfl) rfl)
    (hs.held.move hplace rfl (fun _ => id) ?_) ?_ (fun b hb h => ⟨hs.owner b h, ?_⟩) ?_ fun hready n hn => ?_
  · rw [go_self]
    exact hhand
  · rw [go_self]
    exact hinside
  · have hb := hs.scanned b
    cases hplace : s.place b <;> rw [hplace] at hb <;> exact hb
  · rw [go_self]
    cases p <;> exact hscanned
  · have hgo : ∀ n, making (s.place a) = some n → making ((s.go a p).place a) = some n := by
      intro n hn
      rw [go_self]
      exact (hmaking n hn).resolve_right (by simp [show s.libcLocksReady = true from hready])
    have hn := making_other hs hplace hgo hready hn
    exact hn

theorem take_step {ok : Bool} (hs : Sound s) (hcall : s.place a = .initLock ∨ ∃ n, s.place a = .closeLock n)
    (hcritical : critical p = true) (hhand : ∀ n, inHand p = some n → inHand (s.place a) = some n)
    (hscanned : Scanned s p) (hstep : lockDynamicPool s a ok p = some s') : Sound s' := by
  have hidle : s.place a ≠ .idle := by rcases hcall with h | ⟨n, h⟩ <;> simp [h]
  have hrun := hs.running hidle
  have hmaking : ∀ n, making (s.place a) ≠ some n := by
    intro n
    rcases hcall with h | ⟨n, h⟩ <;> simp [h, making]
  cases a with
  | boot =>
    cases hstep
    refine walk_step hs hrun (fun _ => ?_) hhand (fun n hn => absurd hn (hmaking n)) hscanned
    simp [State.owner, show s.started = false by simpa using hrun]
  | thread t =>
    simp only [lockDynamicPool] at hstep
    split at hstep
    case isTrue =>
      cases hstep
      exact walk_step hs hrun (by simp [critical, initializing]) (by simp [inHand])
        (fun n hn => absurd hn (hmaking n)) trivial
    case isFalse =>
      split at hstep
      case isFalse => cases hstep
      case isTrue hfree =>
        cases hstep
        have hstarted : s.started = true := by simpa using hrun
        have hplace : ∀ b, b ≠ .thread t →
            ({ s with pool := some (.thread t) }.go (.thread t) p).place b = s.place b :=
          fun _ => go_other _ p
        refine hs.change rfl hplace hrun (hs.listed.congr rfl (fun _ => rfl) rfl)
          (hs.held.move hplace rfl (fun _ => id) ?_) (fun _ => ?_) (fun b hb h => ?_) ?_
          fun hready n hn => ?_
        · rw [go_self]
          exact hhand
        · simp [State.owner, State.go, hstarted]
        · have hown := hs.owner b h
          simp [State.owner, hstarted, hfree] at hown
        · rw [go_self]
          cases p <;> exact hscanned
        · have hn := making_other hs hplace (fun n hn => absurd hn (hmaking n)) hready hn
          exact hn

theorem unlock_eq {ok : Bool} (h : unlockDynamicPool s a ok = some s') :
    ∃ pool, s' = { s with pool } := by
  cases a with
  | boot =>
    cases h
    exact ⟨s.pool, rfl⟩
  | thread t =>
    simp only [unlockDynamicPool] at h
    split at h <;> cases h
    exact ⟨none, rfl⟩

theorem give_step {pool : Option Agent} (held : List Nat) (hs : Sound s)
    (hcritical : critical (s.place a) = true)
    (hnot : critical p = false ∧ initializing p = false)
    (hmaking : ∀ n, making (s.place a) = some n → making p = some n)
    (hheld : Held ({ s with pool, held }.go a p)) : Sound ({ s with pool, held }.go a p) := by
  have hrun : s.started = decide (a ≠ .boot) :=
    hs.running (fun hidle => by simp [hidle, critical] at hcritical)
  have hplace : ∀ b, b ≠ a → ({ s with pool, held }.go a p).place b = s.place b :=
    fun _ => go_other _ p
  refine hs.change rfl hplace hrun (hs.listed.congr rfl (fun _ => rfl) rfl) hheld (fun h => ?_)
    (fun b hb h => ?_) ?_ fun hready n hn => ?_
  · simp [go_self, hnot] at h
  · obtain ⟨hc, hi⟩ := hs.others (.inl hcritical) hb
    simp [hc, hi] at h
  · rw [go_self]
    exact scanned_other hnot.1 hnot.2
  · have hn := making_other hs hplace (fun n hn => by rw [go_self]; exact hmaking n hn) hready hn
    exact hn

theorem ne_idle (ha : critical (s.place a) = true ∨ initializing (s.place a) = true) :
    s.place a ≠ .idle := by
  rcases ha with h | h <;> intro hidle <;> rw [hidle] at h <;> cases h

theorem Sound.inside (hs : Sound s)
    (ha : critical (s.place a) = true ∨ initializing (s.place a) = true)
    (hstarted : s'.started = s.started) (hpool : s'.pool = s.pool)
    (hplace : ∀ b, b ≠ a → s'.place b = s.place b) (hlisted : Listed s') (hheld : Held s')
    (hscanned : Scanned s' (s'.place a))
    (husable : s'.libcLocksReady = true → ∀ n ∈ s'.dynamicLocks,
      (s'.nodes n).created = true ∨ ∃ a, making (s'.place a) = some n) : Sound s' := by
  refine hs.change hstarted hplace (hs.running (ne_idle ha)) hlisted hheld (fun _ => ?_)
    (fun b hb h => ?_) hscanned husable
  · have hown := hs.owner a ha
    unfold State.owner at hown ⊢
    rw [hstarted, hpool]
    exact hown
  · obtain ⟨hc, hi⟩ := hs.others ha hb
    simp [hc, hi] at h

theorem Listed.publish (h : Listed s) : Listed s.publish := by
  have hne : ∀ n ∈ s.dynamicLocks, n ≠ s.calloced := fun n hn => Nat.ne_of_lt (h.fresh n hn)
  refine ⟨List.nodup_cons.mpr ⟨fun hmem => hne _ hmem rfl, h.nodup⟩, fun n hn => ?_, fun n hn => ?_,
    congrArg (· + 1) h.count⟩
  · rcases List.mem_cons.mp hn with rfl | hn
    · exact Nat.lt_succ_self _
    · exact Nat.lt_succ_of_lt (h.fresh n hn)
  · rcases List.mem_cons.mp hn with rfl | hn
    · exact congrArg Node.dynamic (setNode_self ..)
    · exact (congrArg Node.dynamic (setNode_other _ _ (hne n hn))).trans (h.dynamic n hn)

theorem setAllocated_created (s : State) (n : Nat) (allocated : Bool) (m : Nat) :
    ((s.setAllocated n allocated).nodes m).created = (s.nodes m).created :=
  setNode_same s { s.nodes n with allocated } Node.created rfl m

theorem setAllocated_marked {m : Nat} {allocated : Bool} (h : m ≠ n ∨ allocated = true)
    (hm : Marked s m) : Marked (s.setAllocated n allocated) m := by
  refine ⟨hm.1, ?_⟩
  by_cases hmn : m = n
  · subst hmn
    exact (congrArg Node.allocated (setNode_self ..)).trans (h.resolve_left (· rfl))
  · exact (congrArg Node.allocated (setNode_other _ _ hmn)).trans hm.2

theorem allocated_step {allocated : Bool} (hs : Sound s) (hcritical : critical (s.place a) = true)
    (hp : making (s.place a) = none) (hheld : Held ((s.setAllocated n allocated).go a p))
    (hscanned : Scanned ((s.setAllocated n allocated).go a p) p) :
    Sound ((s.setAllocated n allocated).go a p) := by
  have hplace : ∀ b, b ≠ a → ((s.setAllocated n allocated).go a p).place b = s.place b :=
    fun _ => go_other _ _
  refine hs.inside (.inl hcritical) rfl rfl hplace
    (hs.listed.congr rfl (setNode_same s { s.nodes n with allocated } Node.dynamic rfl) rfl) hheld
    (by rwa [go_self]) fun hready m hm => ?_
  have hcreated : (((s.setAllocated n allocated).go a p).nodes m).created = (s.nodes m).created :=
    setAllocated_created s n allocated m
  rw [hcreated]
  exact making_other hs hplace (fun k hk => by rw [hp] at hk; cases hk) hready hm

theorem mark_step {rest : List Nat} (hs : Sound s) (hp : s.place a = .initScan (n :: rest))
    (hfree : (s.nodes n).allocated = false) :
    Sound ((s.setAllocated n true).go a (.initUnlock n)) := by
  have hscan := hs.scanned a
  rw [hp] at hscan
  have hnot : ¬ Marked s n := fun h => by simp [h.2] at hfree
  refine allocated_step hs (by rw [hp]; rfl) (by rw [hp]; rfl) ?_ trivial
  refine hs.held.take (fun _ => go_other _ _) ?_ (fun m => setAllocated_marked (.inr rfl))
    ⟨hscan.1 n List.mem_cons_self, congrArg Node.allocated (setNode_self ..)⟩ (by rw [go_self]; rfl)
    (fun b hb => hnot (hs.held.inHand b n hb).1)
  exact (List.erase_of_not_mem fun hmem => hnot (hs.held.marked n hmem)).symm

theorem publish_step (hs : Sound s) (hp : s.place a = .initAllocate) :
    Sound (s.publish.go a (.initCreate s.calloced)) := by
  have hnot : s.calloced ∉ s.dynamicLocks := fun hmem => Nat.lt_irrefl _ (hs.listed.fresh _ hmem)
  have hplace : ∀ b, b ≠ a → (s.publish.go a (.initCreate s.calloced)).place b = s.place b :=
    fun _ => go_other _ _
  have hnode : ∀ m ∈ s.dynamicLocks,
      (s.publish.go a (.initCreate s.calloced)).nodes m = s.nodes m :=
    fun m hm => setNode_other s _ fun heq => hnot (heq ▸ hm)
  have hheld : Held (s.publish.go a (.initCreate s.calloced)) := by
    refine hs.held.take hplace ?_ (fun m hm => ⟨List.mem_cons_of_mem _ hm.1, ?_⟩)
      ⟨List.mem_cons_self, congrArg Node.allocated (setNode_self ..)⟩ (by rw [go_self]; rfl)
      (fun b hb => hnot (hs.held.inHand b _ hb).1.1)
    · exact (List.erase_of_not_mem fun hmem => hnot (hs.held.marked _ hmem).1).symm
    · rw [hnode m hm.1]
      exact hm.2
  refine hs.inside (.inl (by rw [hp]; rfl)) rfl rfl hplace
    (hs.listed.publish.congr rfl (fun _ => rfl) rfl) hheld (by rw [go_self]; trivial)
    fun hready m hm => ?_
  rcases List.mem_cons.mp hm with rfl | hm
  · exact .inr ⟨a, by rw [go_self]; rfl⟩
  · rw [hnode m hm]
    exact making_other hs hplace (fun k hk => by rw [hp] at hk; cases hk) hready hm

theorem unmark_step {rest : List Nat} (hs : Sound s) (hp : s.place a = .closeScan n rest) :
    Sound ((s.setAllocated n false).go a .closeUnlock) := by
  refine allocated_step hs (by rw [hp]; rfl) (by rw [hp]; rfl) ?_ trivial
  exact hs.held.drop (n := n) (fun _ => go_other _ _) (by rw [hp]; rfl) (by rw [go_self]; rfl)
    (fun m hmn => setAllocated_marked (.inl hmn)) (.inr rfl)

theorem create_step (hs : Sound s)
    (ha : critical (s.place a) = true ∨ initializing (s.place a) = true)
    (hhand : ∀ m, inHand p = some m → inHand (s.place a) = some m)
    (hmaking : ∀ m, making (s.place a) = some m → m = n)
    (hscanned : Scanned (s.setCreated n) p) : Sound ((s.setCreated n).go a p) := by
  have hplace : ∀ b, b ≠ a → ((s.setCreated n).go a p).place b = s.place b := fun _ => go_other _ _
  refine hs.inside ha rfl rfl hplace
    (hs.listed.congr rfl (setNode_same s { s.nodes n with created := true } Node.dynamic rfl) rfl)
    (hs.held.move hplace rfl (fun m hm => ⟨hm.1, ?_⟩) ?_) ?_ fun hready m hm => ?_
  · exact (setNode_same s { s.nodes n with created := true } Node.allocated rfl m).trans hm.2
  · rw [go_self]
    exact hhand
  · rw [go_self]
    cases p <;> exact hscanned
  · by_cases hmn : m = n
    · subst hmn
      exact .inl (congrArg Node.created (setNode_self ..))
    · have hnode : ((s.setCreated n).go a p).nodes m = s.nodes m := setNode_other _ _ hmn
      rw [hnode]
      refine (hs.usable hready m hm).imp_right fun ⟨b, hb⟩ => ⟨b, ?_⟩
      have hba : b ≠ a := by
        rintro rfl
        exact hmn (hmaking m hb)
      rwa [hplace b hba]

theorem ready_step (hs : Sound s) (hp : s.place a = .createPool) :
    Sound ({ s with libcLocksReady := true }.go a .idle) := by
  have hcreated := hs.scanned a
  rw [hp] at hcreated
  have hplace : ∀ b, b ≠ a → ({ s with libcLocksReady := true }.go a .idle).place b = s.place b :=
    fun _ => go_other _ _
  refine hs.inside (.inr (by rw [hp]; rfl)) rfl rfl hplace (hs.listed.congr rfl (fun _ => rfl) rfl)
    (hs.held.move hplace rfl (fun _ => id) ?_) (by rw [go_self]; trivial)
    fun _ n hn => .inl (hcreated.2 n hn)
  rw [go_self]
  exact fun n hn => by cases hn

theorem walk_inside {q : Place} (hs : Sound s) (hp : s.place a = q)
    (hinside : critical q = true ∨ initializing q = true)
    (hhand : inHand p = none ∨ inHand p = inHand q)
    (hmaking : making q = none ∨ making p = making q ∨ s.libcLocksReady = false)
    (hscanned : Scanned s p) : Sound (s.go a p) := by
  subst hp
  refine walk_step hs (hs.running (ne_idle hinside)) (fun _ => hs.owner a hinside)
    (fun n hn => ?_) (fun n hn => ?_) hscanned
  · rcases hhand with h | h
    · rw [h] at hn
      cases hn
    · rwa [← h]
  · rcases hmaking with h | h | h
    · rw [h] at hn
      cases hn
    · exact .inl (h.trans hn)
    · exact .inr h

section
variable {ok : Bool}

theorem sound_initLock (hs : Sound s) (hp : s.place a = .initLock)
    (h : advance s a ok = some s') : Sound s' := by
  simp only [advance, hp] at h
  refine take_step (p := .initScan s.dynamicLocks) hs (.inl hp) rfl (fun n hn => by cases hn)
    ?_ h
  exact ⟨fun _ hn => hn, fun n hn hnot => absurd hn hnot⟩

theorem sound_initScan {rest : List Nat} (hs : Sound s) (hp : s.place a = .initScan rest)
    (h : advance s a ok = some s') : Sound s' := by
  have hscan := hs.scanned a
  rw [hp] at hscan
  cases rest with
  | nil =>
    simp only [advance, hp, Option.some.injEq] at h
    subst h
    exact walk_inside hs hp (.inl rfl) (.inl rfl) (.inl rfl)
      fun n hn => hscan.2 n hn List.not_mem_nil
  | cons candidate rest =>
    simp only [advance, hp] at h
    split at h
    case isTrue hallocated =>
      cases h
      refine walk_inside hs hp (.inl rfl) (.inl rfl) (.inl rfl)
        ⟨fun n hn => hscan.1 n (List.mem_cons_of_mem _ hn), fun n hn hnot => ?_⟩
      by_cases hne : n = candidate
      · rw [hne, hallocated]
      · exact hscan.2 n hn fun hmem => (List.mem_cons.mp hmem).elim hne hnot
    case isFalse hfree =>
      cases h
      exact mark_step hs hp (by simpa using hfree)

theorem sound_initAllocate (hs : Sound s) (hp : s.place a = .initAllocate)
    (h : advance s a ok = some s') : Sound s' := by
  simp only [advance, hp] at h
  split at h
  case isTrue =>
    cases h
    exact publish_step hs hp
  case isFalse =>
    cases h
    exact walk_inside hs hp (.inl rfl) (.inl rfl) (.inl rfl) trivial

theorem sound_initCreate {n : Nat} (hs : Sound s) (hp : s.place a = .initCreate n)
    (h : advance s a ok = some s') : Sound s' := by
  simp only [advance, hp] at h
  split at h
  case isTrue hready =>
    cases h
    exact walk_inside hs hp (.inl rfl) (.inr rfl) (.inr (.inr (by simpa using hready))) trivial
  case isFalse =>
    split at h
    case isTrue =>
      cases h
      exact create_step hs (.inl (by rw [hp]; rfl)) (fun m hm => by rw [hp]; exact hm)
        (fun m hm => by rw [hp] at hm; exact (Option.some.inj hm).symm) trivial
    case isFalse =>
      cases h
      exact walk_inside hs hp (.inl rfl) (.inr rfl) (.inr (.inl rfl)) trivial

theorem sound_initUnlock {n : Nat} (hs : Sound s) (hp : s.place a = .initUnlock n)
    (h : advance s a ok = some s') : Sound s' := by
  simp only [advance, hp] at h
  split at h <;> cases h
  case h_1 hunlock =>
    obtain ⟨pool, rfl⟩ := unlock_eq hunlock
    refine give_step (s := s) (n :: s.held) hs (by rw [hp]; rfl) ⟨rfl, rfl⟩
      (fun m hm => by rw [hp] at hm; cases hm) ?_
    exact hs.held.drop (fun _ => go_other _ _) (by rw [hp]; rfl) (by rw [go_self]; rfl)
      (fun _ _ => id) (.inl ⟨rfl, (hs.held.inHand a n (by rw [hp]; rfl)).1⟩)
  case h_2 => exact walk_inside hs hp (.inl rfl) (.inl rfl) (.inl rfl) trivial

theorem sound_failUnlock {n : Option Nat} (hs : Sound s) (hp : s.place a = .failUnlock n)
    (h : advance s a ok = some s') : Sound s' := by
  simp only [advance, hp, Option.some.injEq] at h
  subst h
  cases hunlock : unlockDynamicPool s a ok with
  | none => exact walk_inside hs hp (.inl rfl) (.inr rfl) (.inr (.inl rfl)) trivial
  | some s₁ =>
    obtain ⟨pool, rfl⟩ := unlock_eq hunlock
    refine give_step s.held hs (by rw [hp]; rfl) ⟨rfl, rfl⟩
      (fun m hm => by rw [hp] at hm; exact hm) ?_
    exact hs.held.move (fun _ => go_other _ _) rfl (fun _ => id)
      (fun m hm => by rw [go_self] at hm; rw [hp]; exact hm)

theorem sound_closeLock {n : Nat} (hs : Sound s) (hp : s.place a = .closeLock n)
    (h : advance s a ok = some s') : Sound s' := by
  simp only [advance, hp] at h
  have hmarked := (hs.held.inHand a n (by rw [hp]; rfl)).1
  refine take_step (p := .closeScan n s.dynamicLocks) hs (.inr ⟨n, hp⟩) rfl
    (fun m hm => by rw [hp]; exact hm) ?_ h
  exact hmarked.1

theorem sound_closeScan {n : Nat} {rest : List Nat} (hs : Sound s) (hp : s.place a = .closeScan n rest)
    (h : advance s a ok = some s') : Sound s' := by
  have hscan := hs.scanned a
  rw [hp] at hscan
  cases rest with
  | nil => exact absurd hscan List.not_mem_nil
  | cons candidate rest =>
    simp only [advance, hp] at h
    split at h
    case isTrue heq =>
      cases h
      rw [← heq.1]
      exact unmark_step hs hp
    case isFalse hne =>
      cases h
      refine walk_inside hs hp (.inl rfl) (.inr rfl) (.inl rfl) ?_
      have hmarked := (hs.held.inHand a n (by rw [hp]; rfl)).1
      have hdynamic := hs.listed.dynamic n hmarked.1
      rcases List.mem_cons.mp hscan with rfl | hmem
      · exact absurd ⟨rfl, hdynamic⟩ hne
      · exact hmem

theorem sound_closeUnlock (hs : Sound s) (hp : s.place a = .closeUnlock)
    (h : advance s a ok = some s') : Sound s' := by
  simp only [advance, hp] at h
  split at h <;> cases h
  case h_1 hunlock =>
    obtain ⟨pool, rfl⟩ := unlock_eq hunlock
    refine give_step s.held hs (by rw [hp]; rfl) ⟨rfl, rfl⟩
      (fun m hm => by rw [hp] at hm; cases hm) ?_
    exact hs.held.move (fun _ => go_other _ _) rfl (fun _ => id)
      (fun m hm => by rw [go_self] at hm; cases hm)
  case h_2 => exact walk_inside hs hp (.inl rfl) (.inl rfl) (.inl rfl) trivial

theorem sound_createStatic {left : Nat} (hs : Sound s) (hp : s.place a = .createStatic left)
    (h : advance s a ok = some s') : Sound s' := by
  have hscan := hs.scanned a
  rw [hp] at hscan
  cases left with
  | zero =>
    simp only [advance, hp, Option.some.injEq] at h
    subst h
    exact walk_inside hs hp (.inr rfl) (.inl rfl) (.inl rfl)
      ⟨hscan, fun n hn hnot => absurd hn hnot⟩
  | succ left =>
    simp only [advance, hp] at h
    split at h
    case isTrue =>
      cases h
      exact walk_inside hs hp (.inr rfl) (.inl rfl) (.inl rfl) hscan
    case isFalse =>
      cases h
      exact walk_inside hs hp (.inr rfl) (.inl rfl) (.inl rfl) trivial

theorem sound_createDynamic {rest : List Nat} (hs : Sound s) (hp : s.place a = .createDynamic rest)
    (h : advance s a ok = some s') : Sound s' := by
  have hscan := hs.scanned a
  rw [hp] at hscan
  cases rest with
  | nil =>
    simp only [advance, hp, Option.some.injEq] at h
    subst h
    exact walk_inside hs hp (.inr rfl) (.inl rfl) (.inl rfl)
      ⟨hscan.1, fun n hn => hscan.2 n hn List.not_mem_nil⟩
  | cons n rest =>
    simp only [advance, hp] at h
    split at h
    case isTrue =>
      cases h
      refine create_step hs (.inr (by rw [hp]; rfl)) (fun m hm => by cases hm)
        (fun m hm => by rw [hp] at hm; cases hm) ⟨hscan.1, fun m hm hnot => ?_⟩
      by_cases hmn : m = n
      · subst hmn
        exact congrArg Node.created (setNode_self ..)
      · rw [show (s.setCreated n).nodes m = s.nodes m from setNode_other _ _ hmn]
        exact hscan.2 m hm fun hmem => (List.mem_cons.mp hmem).elim hmn hnot
    case isFalse =>
      cases h
      exact walk_inside hs hp (.inr rfl) (.inl rfl) (.inl rfl) trivial

theorem sound_createPool (hs : Sound s) (hp : s.place a = .createPool)
    (h : advance s a ok = some s') : Sound s' := by
  simp only [advance, hp] at h
  split at h
  case isTrue =>
    cases h
    exact ready_step hs hp
  case isFalse =>
    cases h
    exact walk_inside hs hp (.inr rfl) (.inl rfl) (.inl rfl) trivial

theorem advance_sound (hs : Sound s) (h : advance s a ok = some s') : Sound s' := by
  cases hp : s.place a with
  | idle => simp [advance, hp] at h
  | failed n => simp [advance, hp] at h
  | initLock => exact sound_initLock hs hp h
  | initScan _ => exact sound_initScan hs hp h
  | initAllocate => exact sound_initAllocate hs hp h
  | initCreate _ => exact sound_initCreate hs hp h
  | initUnlock _ => exact sound_initUnlock hs hp h
  | failUnlock _ => exact sound_failUnlock hs hp h
  | closeLock _ => exact sound_closeLock hs hp h
  | closeScan _ _ => exact sound_closeScan hs hp h
  | closeUnlock => exact sound_closeUnlock hs hp h
  | createStatic _ => exact sound_createStatic hs hp h
  | createDynamic _ => exact sound_createDynamic hs hp h
  | createPool => exact sound_createPool hs hp h

end

theorem mayCall_iff : mayCall s a = true ↔ s.place a = .idle ∧ s.started = decide (a ≠ .boot) := by
  simp [mayCall]

theorem call_step (hs : Sound s) (hcall : mayCall s a = true)
    (hinside : critical p = true ∨ initializing p = true → State.owner s = some a)
    (hhand : inHand p = none) (hscanned : Scanned s p) : Sound (s.go a p) := by
  obtain ⟨hidle, hrun⟩ := mayCall_iff.mp hcall
  refine walk_step hs hrun hinside (fun n hn => ?_) (fun n hn => ?_) hscanned
  · rw [hhand] at hn
    cases hn
  · rw [hidle] at hn
    cases hn

theorem close_step (hs : Sound s) (hcall : mayCall s a = true) (hn : n ∈ s.held) :
    Sound ({ s with held := s.held.erase n }.go a (.closeLock n)) := by
  obtain ⟨hidle, hrun⟩ := mayCall_iff.mp hcall
  have hplace : ∀ b, b ≠ a →
      ({ s with held := s.held.erase n }.go a (.closeLock n)).place b = s.place b :=
    fun _ => go_other _ _
  refine hs.change rfl hplace hrun (hs.listed.congr rfl (fun _ => rfl) rfl)
    (hs.held.take hplace rfl (fun _ => id) (hs.held.marked n hn) (by rw [go_self]; rfl)
      (fun b hb => (hs.held.inHand b n hb).2 hn)) ?_ (fun b hb h => ⟨hs.owner b h, ?_⟩)
    (by rw [go_self]; trivial) fun hready m hm => ?_
  · rw [go_self]
    rintro (h | h) <;> cases h
  · have hb := hs.scanned b
    cases hplace : s.place b <;> rw [hplace] at hb <;> exact hb
  · have hm := making_other hs hplace (fun k hk => by rw [hidle] at hk; cases hk) hready hm
    exact hm

theorem start_step (hs : Sound s) (hcall : mayCall s .boot = true) :
    Sound { s with started := true } := by
  obtain ⟨hidle, hrun⟩ := mayCall_iff.mp hcall
  have hall : ∀ a, s.place a = .idle := by
    intro a
    cases a with
    | boot => exact hidle
    | thread t => exact hs.early hrun t
  refine ⟨hs.listed.congr rfl (fun _ => rfl) rfl,
    hs.held.move (a := .boot) (fun _ _ => rfl) rfl (fun _ => id) (fun _ => id), fun a ha => ?_,
    (fun h => by cases h), fun _ => hidle, fun a => ?_, hs.usable⟩
  · rw [show ({ s with started := true } : State).place a = .idle from hall a] at ha
    rcases ha with h | h <;> cases h
  · rw [show ({ s with started := true } : State).place a = .idle from hall a]
    trivial

theorem sound_step {i : Action} (hs : Sound s) (h : step s i = some s') : Sound s' := by
  cases i with
  | start =>
    simp only [step] at h
    split at h
    case isTrue hcall =>
      cases h
      exact start_step hs hcall
    case isFalse => cases h
  | libcInitialize =>
    simp only [step] at h
    split at h
    case isFalse => cases h
    case isTrue hcall =>
      cases h
      split
      case isTrue => exact hs
      case isFalse hready =>
        refine call_step hs hcall (fun _ => ?_) rfl (by simpa [Scanned] using hready)
        have hnot : s.started = false := (mayCall_iff.mp hcall).2
        simp [State.owner, hnot]
  | init a valid =>
    simp only [step] at h
    split at h
    case isFalse => cases h
    case isTrue hcall =>
      cases h
      cases valid with
      | true => exact call_step hs hcall (by rintro (h | h) <;> cases h) rfl trivial
      | false => exact call_step hs hcall (by rintro (h | h) <;> cases h) rfl trivial
  | close a lock =>
    cases lock with
    | none =>
      simp only [step] at h
      split at h
      case isFalse => cases h
      case isTrue hcall =>
        cases h
        exact call_step hs hcall (by rintro (h | h) <;> cases h) rfl trivial
    | some n =>
      simp only [step] at h
      split at h
      case isFalse => cases h
      case isTrue hcall =>
        cases h
        exact close_step hs hcall.1 hcall.2
  | advance a ok => exact advance_sound hs h

theorem sound_initial : Sound {} where
  listed := ⟨List.nodup_nil, (fun n hn => by cases hn), (fun n hn => by cases hn), rfl⟩
  held := ⟨List.nodup_nil, (fun n hn => by cases hn), (fun a n hn => by cases hn),
    (fun a b n hn => by cases hn)⟩
  owner := by
    rintro a (h | h) <;> cases h
  early := fun _ _ => rfl
  late := fun _ => rfl
  scanned := fun _ => trivial
  usable := fun _ n hn => by cases hn

/-- The nodes that are marked. -/
def marked (s : State) : List Nat := s.dynamicLocks.filter fun n => (s.nodes n).allocated

theorem lock_calloced {ok : Bool} (h : lockDynamicPool s a ok p = some s') :
    s'.calloced = s.calloced := by
  cases a with
  | boot =>
    cases h
    rfl
  | thread t =>
    simp only [lockDynamicPool] at h
    split at h
    case isTrue =>
      cases h
      rfl
    case isFalse =>
      split at h <;> cases h
      rfl

theorem publish_marked (hs : Sound s) (hp : s.place a = .initAllocate) :
    s.publish.calloced ≤ (marked (s.publish.go a p)).length := by
  have hall := hs.scanned a
  rw [hp] at hall
  have hnode : ∀ n ∈ s.dynamicLocks, s.publish.nodes n = s.nodes n :=
    fun n hn => setNode_other s _ (Nat.ne_of_lt (hs.listed.fresh n hn))
  have hmarked : marked (s.publish.go a p) = (s.publish.go a p).dynamicLocks := by
    refine List.filter_eq_self.mpr fun n hn => ?_
    rcases List.mem_cons.mp hn with rfl | hn
    · exact congrArg Node.allocated (setNode_self ..)
    · exact (congrArg Node.allocated (hnode n hn)).trans (hall n hn)
  rw [hmarked]
  exact Nat.le_of_eq (congrArg (· + 1) hs.listed.count.symm)

theorem step_calloced {i : Action} (hs : Sound s) (h : step s i = some s') :
    s'.calloced = s.calloced ∨ s'.calloced ≤ (marked s').length := by
  cases i with
  | start | init =>
    simp only [step] at h
    split at h <;> cases h
    exact .inl rfl
  | libcInitialize =>
    simp only [step] at h
    split at h <;> cases h
    exact .inl (by split <;> rfl)
  | close a lock =>
    cases lock <;> simp only [step] at h <;> split at h <;> cases h <;> exact .inl rfl
  | advance a ok =>
    simp only [step, advance] at h
    cases hp : s.place a with
    | initLock | closeLock =>
      simp only [hp] at h
      exact .inl (lock_calloced h)
    | initAllocate =>
      simp only [hp] at h
      split at h <;> cases h
      · exact .inr (publish_marked hs hp)
      · exact .inl rfl
    | idle | failed => simp [hp] at h
    | initUnlock | closeUnlock =>
      simp only [hp] at h
      split at h <;> cases h
      · rename_i hunlock
        obtain ⟨pool, rfl⟩ := unlock_eq hunlock
        exact .inl rfl
      · exact .inl rfl
    | failUnlock =>
      simp only [hp, Option.some.injEq] at h
      subst h
      cases hunlock : unlockDynamicPool s a ok with
      | none => exact .inl rfl
      | some s₁ =>
        obtain ⟨pool, rfl⟩ := unlock_eq hunlock
        exact .inl rfl
    | initCreate =>
      simp only [hp] at h
      split at h
      · cases h
        exact .inl rfl
      · split at h <;> cases h <;> exact .inl rfl
    | createPool =>
      simp only [hp] at h
      split at h <;> cases h <;> exact .inl rfl
    | initScan rest | closeScan _ rest | createDynamic rest =>
      cases rest with
      | nil =>
        simp only [hp, Option.some.injEq] at h
        subst h
        exact .inl rfl
      | cons n rest =>
        simp only [hp] at h
        split at h <;> cases h <;> exact .inl rfl
    | createStatic left =>
      cases left with
      | zero =>
        simp only [hp, Option.some.injEq] at h
        subst h
        exact .inl rfl
      | succ left =>
        simp only [hp] at h
        split at h <;> cases h <;> exact .inl rfl

abbrev Reaches (s s' : State) : Prop := Runs.Reached step (fun _ _ => True) s s'

/-- Every node was marked once together with all the others. -/
theorem calloced_le_marked (h : Reaches {} s) :
    ∃ past, Reaches {} past ∧ Reaches past s ∧ s.calloced ≤ (marked past).length := by
  induction h with
  | start => exact ⟨{}, .start, .start, Nat.le_refl _⟩
  | next h _ hstep ih =>
    obtain ⟨past, hpast, hlater, hle⟩ := ih
    have hs := h.invariant sound_initial fun _ _ _ hs _ hstep => sound_step hs hstep
    rcases step_calloced hs hstep with hsame | hmore
    · exact ⟨past, hpast, hlater.next trivial hstep, hsame ▸ hle⟩
    · exact ⟨_, h.next trivial hstep, .start, hmore⟩

end

section
variable {s s' : State} {a b : Agent} {p : Place} {n : Nat}

/-- The node whose mutex the call of the agent could not create. -/
def spoiled : Place → Option Nat
  | .failUnlock n | .failed n => n
  | _ => none

def actor : Action → Agent
  | .start | .libcInitialize => .boot
  | .init a _ | .close a _ | .advance a _ => a

theorem lock_other {ok : Bool} (h : lockDynamicPool s a ok p = some s') (hb : b ≠ a) :
    s'.place b = s.place b := by
  cases a with
  | boot =>
    cases h
    exact go_other s p hb
  | thread t =>
    simp only [lockDynamicPool] at h
    split at h
    case isTrue =>
      cases h
      exact go_other s _ hb
    case isFalse =>
      split at h <;> cases h
      exact go_other _ p hb

theorem advance_other {ok : Bool} (h : advance s a ok = some s') (hb : b ≠ a) :
    s'.place b = s.place b := by
  simp only [advance] at h
  cases hp : s.place a with
  | initLock | closeLock =>
    simp only [hp] at h
    exact lock_other h hb
  | idle | failed => simp [hp] at h
  | initUnlock | closeUnlock =>
    simp only [hp] at h
    split at h <;> cases h
    · rename_i hunlock
      obtain ⟨pool, rfl⟩ := unlock_eq hunlock
      exact go_other _ _ hb
    · exact go_other s _ hb
  | failUnlock =>
    simp only [hp, Option.some.injEq] at h
    subst h
    cases hunlock : unlockDynamicPool s a ok with
    | none => exact go_other s _ hb
    | some s₁ =>
      obtain ⟨pool, rfl⟩ := unlock_eq hunlock
      exact go_other _ _ hb
  | initAllocate | createPool =>
    simp only [hp] at h
    split at h <;> cases h <;> exact go_other _ _ hb
  | initCreate =>
    simp only [hp] at h
    split at h
    · cases h
      exact go_other s _ hb
    · split at h <;> cases h <;> exact go_other _ _ hb
  | initScan rest | closeScan _ rest | createDynamic rest =>
    cases rest with
    | nil =>
      simp only [hp, Option.some.injEq] at h
      subst h
      exact go_other s _ hb
    | cons n rest =>
      simp only [hp] at h
      split at h <;> cases h <;> exact go_other _ _ hb
  | createStatic left =>
    cases left with
    | zero =>
      simp only [hp, Option.some.injEq] at h
      subst h
      exact go_other s _ hb
    | succ left =>
      simp only [hp] at h
      split at h <;> cases h <;> exact go_other _ _ hb

theorem step_other {i : Action} (h : step s i = some s') (hb : b ≠ actor i) :
    s'.place b = s.place b := by
  cases i with
  | start =>
    simp only [step] at h
    split at h <;> cases h
    rfl
  | libcInitialize =>
    simp only [step] at h
    split at h <;> cases h
    split
    · rfl
    · exact go_other s _ hb
  | init =>
    simp only [step] at h
    split at h <;> cases h
    exact go_other s _ hb
  | close a lock =>
    cases lock <;> simp only [step] at h <;> split at h <;> cases h <;> exact go_other _ _ hb
  | advance a ok => exact advance_other h hb

/-- `libc_lock_failure` does not return. -/
theorem spoiled_step {i : Action} (h : step s i = some s') (hn : spoiled (s.place a) = some n) :
    spoiled (s'.place a) = some n := by
  by_cases ha : a = actor i
  · have hbusy : s.place a ≠ .idle := by
      intro hidle
      rw [hidle] at hn
      cases hn
    have hcall : mayCall s a = false := by simp [mayCall, hbusy]
    cases i with
    | start | libcInitialize =>
      rw [show a = Agent.boot from ha] at hcall
      simp [step, hcall] at h
    | init b =>
      obtain rfl : a = b := ha
      simp [step, hcall] at h
    | close b lock =>
      obtain rfl : a = b := ha
      cases lock <;> simp [step, hcall] at h
    | advance b ok =>
      obtain rfl : a = b := ha
      simp only [step, advance] at h
      cases hp : s.place a <;> rw [hp] at hn <;> simp only [spoiled, reduceCtorEq] at hn
      case failUnlock m =>
        simp only [hp, Option.some.injEq] at h
        rw [← h, go_self]
        exact hn
      case failed m => simp [hp] at h
  · rw [step_other h ha]
    exact hn

end

/-- `held` are the locks of the callers, and a lock is open while it is marked. A node without a
mutex is one whose creation is going on in the pool, or has failed: then the call does not return. -/
structure LocksSound (s : State) : Prop where
  unique : s.held.Nodup ∧ ∀ n ∈ s.held, n ∈ marked s
  usable : s.libcLocksReady = true → ∀ n ∈ s.dynamicLocks, (s.nodes n).created = true ∨
    n ∉ s.held ∧ ∃ a, (s.place a = .initCreate n ∧ State.owner s = some a) ∨
      spoiled (s.place a) = some n
  given : s.libcLocksReady = true → ∀ n ∈ s.held, (s.nodes n).created = true
  fails : ∀ a n, s.place a = .failUnlock n → ∀ ok, ∃ s', step s (.advance a ok) = some s' ∧
    s'.place a = .failed n
  lost : ∀ a n, spoiled (s.place a) = some n → ∀ s', Reaches s s' →
    spoiled (s'.place a) = some n ∧ n ∉ s'.held
  recycled : s.dynamicLocks.length = s.calloced ∧
    ∃ past, Reaches {} past ∧ Reaches past s ∧ s.calloced ≤ (marked past).length

theorem Sound.usable_or {s : State} {n : Nat} (hs : Sound s) (hready : s.libcLocksReady = true)
    (hn : n ∈ s.dynamicLocks) : (s.nodes n).created = true ∨ n ∉ s.held ∧
      ∃ a, (s.place a = .initCreate n ∧ State.owner s = some a) ∨ spoiled (s.place a) = some n := by
  refine (hs.usable hready n hn).imp_right fun ⟨a, ha⟩ => ?_
  cases hp : s.place a <;> rw [hp] at ha <;> simp only [making, reduceCtorEq, Option.some.injEq] at ha
  case initCreate m =>
    subst ha
    exact ⟨(hs.held.inHand a m (by rw [hp]; rfl)).2, a, .inl ⟨hp, hs.owner a (.inl (by rw [hp]; rfl))⟩⟩
  case failUnlock m => exact ⟨(hs.held.inHand a n (by rw [hp]; exact ha)).2, a, .inr (by rw [hp]; exact ha)⟩
  case failed m => exact ⟨(hs.held.inHand a n (by rw [hp]; exact ha)).2, a, .inr (by rw [hp]; exact ha)⟩

theorem locks_sound (s : State) (h : Reaches {} s) : LocksSound s := by
  have hsound : ∀ {s'}, Reaches {} s' → Sound s' := fun h =>
    h.invariant sound_initial fun _ _ _ hs _ hstep => sound_step hs hstep
  have hs := hsound h
  refine ⟨⟨hs.held.nodup, fun n hn => ?_⟩, fun hready n hn => hs.usable_or hready hn,
    fun hready n hn => ?_, fun a n hp ok =>
      ⟨((unlockDynamicPool s a ok).getD s).go a (.failed n), by simp only [step, advance, hp], go_self ..⟩,
    fun a n hn s' hlater => ?_, hs.listed.count, calloced_le_marked h⟩
  · obtain ⟨hmem, hallocated⟩ := hs.held.marked n hn
    exact List.mem_filter.mpr ⟨hmem, hallocated⟩
  · exact (hs.usable_or hready (hs.held.marked n hn).1).resolve_right fun hnot => hnot.1 hn
  · have hspoiled : spoiled (s'.place a) = some n :=
      hlater.invariant hn fun _ _ _ hn _ hstep => spoiled_step hstep hn
    refine ⟨hspoiled, ((hsound (h.trans hlater)).held.inHand a n ?_).2⟩
    cases hp : s'.place a <;> rw [hp] at hspoiled <;> first | exact hspoiled | cases hspoiled

/-- The locks become ready and the scheduler starts. -/
def startUp : List Action :=
  .libcInitialize :: List.replicate 11 (.advance .boot true) ++ [.start]

/-- A thread opens a lock, closes it and opens another one. -/
def openedTwice : List Action :=
  startUp ++ .init (.thread 0) true :: List.replicate 5 (.advance (.thread 0) true) ++
    .close (.thread 0) (some 0) :: List.replicate 3 (.advance (.thread 0) true) ++
    .init (.thread 0) true :: List.replicate 3 (.advance (.thread 0) true)

theorem locks_sound_openedTwice :
    ∃ s, s.held = [0] ∧ s.calloced = 1 ∧ LocksSound s := by
  have hsome : (Runs.perform step {} openedTwice).isSome = true := by decide +kernel
  obtain ⟨s, hs⟩ := Option.isSome_iff_exists.mp hsome
  have hfields : (Runs.perform step {} openedTwice).map (fun s => (s.held, s.calloced)) =
      some ([0], 1) := by decide +kernel
  rw [hs, Option.map_some, Option.some.injEq, Prod.mk.injEq] at hfields
  exact ⟨s, hfields.1, hfields.2,
    locks_sound s (Runs.reached_of_perform hs (Runs.performs_always (fun _ _ => trivial) _))⟩

/-- A thread asks for its first lock and has published the node. -/
def publishing : List Action :=
  startUp ++ .init (.thread 0) true :: List.replicate 3 (.advance (.thread 0) true)

/-- Its mutex cannot be created. -/
def creationFails : List Action :=
  publishing ++ [.advance (.thread 0) false, .advance (.thread 0) true]

/-- The locks are ready, and there is one whose mutex does not exist, while a call is creating it and
for ever after its creation has failed. Nobody has a lock. -/
theorem lock_without_mutex :
    (∃ s, Reaches {} s ∧ s.libcLocksReady = true ∧ s.dynamicLocks = [0] ∧
      (s.nodes 0).created = false ∧ s.held = [] ∧ s.place (.thread 0) = .initCreate 0) ∧
    (∃ s, Reaches {} s ∧ s.libcLocksReady = true ∧ s.dynamicLocks = [0] ∧
      (s.nodes 0).created = false ∧ s.held = [] ∧ s.pool = none) ∧
    ¬ ∀ s, Reaches {} s → s.libcLocksReady = true →
      ∀ n ∈ s.dynamicLocks, (s.nodes n).created = true := by
  have hreached : ∀ (is : List Action) (s : State), Runs.perform step {} is = some s → Reaches {} s :=
    fun _ _ hs => Runs.reached_of_perform hs (Runs.performs_always (fun _ _ => trivial) _)
  have hfirst : (Runs.perform step {} publishing).map (fun s => (s.libcLocksReady, s.dynamicLocks,
      (s.nodes 0).created, s.held, s.place (.thread 0))) =
      some (true, [0], false, [], .initCreate 0) := by decide +kernel
  have hsecond : (Runs.perform step {} creationFails).map (fun s => (s.libcLocksReady,
      s.dynamicLocks, (s.nodes 0).created, s.held, s.pool)) =
      some (true, [0], false, [], none) := by decide +kernel
  obtain ⟨s, hs, hfields⟩ := Option.map_eq_some_iff.mp hfirst
  obtain ⟨s', hs', hfields'⟩ := Option.map_eq_some_iff.mp hsecond
  simp only [Prod.mk.injEq] at hfields hfields'
  refine ⟨⟨s, hreached _ s hs, hfields⟩, ⟨s', hreached _ s' hs', hfields'⟩, fun hall => ?_⟩
  have hcreated := hall s' (hreached _ s' hs') hfields'.1 0 (by rw [hfields'.2.1]; simp)
  rw [hfields'.2.2.1] at hcreated
  cases hcreated

end SimPLCity.LockReuse
