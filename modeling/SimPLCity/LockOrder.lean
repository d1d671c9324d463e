import Mathlib.Order.WellFounded
import Mathlib.Data.Set.Basic
import Mathlib.Logic.Function.Basic

/-! Locks with owners, and threads that take them in the order of a rank. -/

namespace SimPLCity.LockOrder

variable {Thread Lock : Type*}

/-- The owner of a lock is the thread that has it in its list. -/
def Owned (owner : Lock → Option Thread) (held : Thread → List Lock) : Prop :=
  ∀ lock t, owner lock = some t ↔ lock ∈ held t

section
variable {owner : Lock → Option Thread} {held : Thread → List Lock} {lock : Lock} {t t' : Thread}

theorem Owned.exclusive (h : Owned owner held) (ht : lock ∈ held t) (ht' : lock ∈ held t') :
    t = t' := by
  have howner := (h lock t).mpr ht
  rw [(h lock t').mpr ht'] at howner
  exact (Option.some.inj howner).symm

variable [DecidableEq Lock] [DecidableEq Thread]

theorem Owned.acquire (h : Owned owner held) (hfree : owner lock = none) :
    Owned (Function.update owner lock (some t)) (Function.update held t (lock :: held t)) := by
  intro l u
  by_cases hl : l = lock
  · subst hl
    have hnone : ∀ u, l ∉ held u := fun u hu => by
      rw [(h l u).mpr hu] at hfree
      cases hfree
    by_cases hu : u = t
    · simp [hu]
    · have hu' : t ≠ u := fun heq => hu heq.symm
      simp [hu, hu', hnone]
  · by_cases hu : u = t
    · simp [hl, hu, h l t]
    · simp [hl, hu, h l u]

theorem Owned.release {rest : List Lock} (h : Owned owner held) (hheld : held t = lock :: rest)
    (hrest : lock ∉ rest) :
    Owned (Function.update owner lock none) (Function.update held t rest) := by
  intro l u
  by_cases hl : l = lock
  · subst hl
    by_cases hu : u = t
    · simp [hu, hrest]
    · have hnot : l ∉ held u := fun hu' => hu (h.exclusive hu' (hheld ▸ List.mem_cons_self))
      simp [hu, hnot]
  · by_cases hu : u = t
    · simp [hl, hu, h l t, hheld]
    · simp [hl, hu, h l u]

end

/-- Each of the threads waits for a lock that one of them holds. -/
def Deadlocked (holds waits : Thread → Lock → Prop) (threads : Set Thread) : Prop :=
  threads.Nonempty ∧ ∀ t ∈ threads, ∃ lock, waits t lock ∧ ∃ t' ∈ threads, holds t' lock

theorem not_deadlocked {α : Type*} [Preorder α] [WellFoundedGT α]
    {holds waits : Thread → Lock → Prop} (rank : Lock → α)
    (hrank : ∀ t lock lock', holds t lock → waits t lock' → rank lock < rank lock')
    (threads : Set Thread) : ¬ Deadlocked holds waits threads := by
  rintro ⟨⟨t₀, ht₀⟩, hblocked⟩
  let awaited : Set Lock := {lock | ∃ t ∈ threads, waits t lock ∧ ∃ t' ∈ threads, holds t' lock}
  have hne : awaited.Nonempty := by
    obtain ⟨lock, hwaits, hheld⟩ := hblocked t₀ ht₀
    exact ⟨lock, t₀, ht₀, hwaits, hheld⟩
  have hwf : WellFounded fun lock lock' => rank lock > rank lock' :=
    InvImage.wf rank wellFounded_gt
  -- the owner of the lock of the greatest rank waits for one of a greater rank
  obtain ⟨lock, ⟨_, -, -, t, ht, hholds⟩, hmax⟩ := hwf.has_min awaited hne
  obtain ⟨lock', hwaits, hheld⟩ := hblocked t ht
  exact hmax lock' ⟨t, ht, hwaits, hheld⟩ (hrank t lock lock' hholds hwaits)

end SimPLCity.LockOrder
