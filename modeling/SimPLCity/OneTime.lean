import Mathlib.Data.List.Basic

/-! Tasks that are to be completed once. Threads start a task, complete it or give it up, and pass
it once it is done; a trace follows the rules when the events of every task do. -/

namespace SimPLCity.OneTime

inductive Event (τ κ : Type*)
  | start (t : τ) (k : κ)
  | complete (t : τ) (k : κ)
  | abort (t : τ) (k : κ)
  | pass (t : τ) (k : κ)
  /-- The thread that runs the task tries to start it again. -/
  | reenter (t : τ) (k : κ)
deriving DecidableEq, Repr

inductive Phase (τ : Type*)
  | idle | running (t : τ) | done
deriving DecidableEq, Repr

section
variable {τ κ : Type*} [DecidableEq τ]

def Event.key : Event τ κ → κ
  | .start _ k | .complete _ k | .abort _ k | .pass _ k | .reenter _ k => k

def advance : Phase τ → Event τ κ → Option (Phase τ)
  | .idle, .start t _ => some (.running t)
  | .running t, .complete u _ => if t = u then some .done else none
  | .running t, .abort u _ => if t = u then some .idle else none
  | .running t, .reenter u _ => if t = u then some (.running t) else none
  | .done, .pass _ _ => some .done
  | _, _ => none

section
variable {p q : Phase τ} {t : τ} {k : κ}

theorem advance_start : advance p (.start t k) = some q ↔ p = .idle ∧ q = .running t := by
  cases p <;> simp [advance, eq_comm]

theorem advance_complete : advance p (.complete t k) = some q ↔ p = .running t ∧ q = .done := by
  cases p <;> simp [advance, eq_comm]

theorem advance_abort : advance p (.abort t k) = some q ↔ p = .running t ∧ q = .idle := by
  cases p <;> simp [advance, eq_comm]

theorem advance_pass : advance p (.pass t k) = some q ↔ p = .done ∧ q = .done := by
  cases p <;> simp [advance, eq_comm]

theorem advance_reenter :
    advance p (.reenter t k) = some q ↔ p = .running t ∧ q = .running t := by
  cases p <;> simp +contextual [advance, eq_comm]

end

def advances (p : Phase τ) (es : List (Event τ κ)) : Option (Phase τ) := es.foldlM advance p

variable {p q : Phase τ} {e : Event τ κ} {es fs : List (Event τ κ)} {t u : τ} {k : κ}

theorem advances_cons : advances p (e :: es) = (advance p e).bind fun q => advances q es := rfl

theorem advances_append :
    advances p (es ++ fs) = (advances p es).bind fun q => advances q fs := List.foldlM_append

theorem advances_done (h : advances .done es = some p) :
    p = .done ∧ ∀ e ∈ es, ∃ u, e = .pass u e.key := by
  induction es with
  | nil => exact ⟨(Option.some.inj h).symm, by simp⟩
  | cons e es ih =>
    obtain ⟨q, hq, h⟩ := Option.bind_eq_some_iff.mp h
    cases e with
    | pass u k =>
      obtain ⟨-, rfl⟩ := advance_pass.mp hq
      obtain ⟨hp, hes⟩ := ih h
      refine ⟨hp, fun f hf => ?_⟩
      rcases List.mem_cons.mp hf with rfl | hf
      · exact ⟨u, rfl⟩
      · exact hes f hf
    | _ => cases hq

theorem completed_of_advances (h : advances p es = some .done) (hp : p ≠ .done) :
    ∃ e ∈ es, ∃ u, e = .complete u e.key := by
  induction es generalizing p with
  | nil => exact absurd (Option.some.inj h) hp
  | cons e es ih =>
    obtain ⟨q, hq, h⟩ := Option.bind_eq_some_iff.mp h
    by_cases hdone : q = .done
    · subst hdone
      refine ⟨e, List.mem_cons_self .., ?_⟩
      cases e with
      | complete u k => exact ⟨u, rfl⟩
      | start u k => cases (advance_start.mp hq).2
      | abort u k => cases (advance_abort.mp hq).2
      | pass u k => exact absurd (advance_pass.mp hq).1 hp
      | reenter u k => cases (advance_reenter.mp hq).2
    · obtain ⟨f, hf, hc⟩ := ih h hdone
      exact ⟨f, List.mem_cons_of_mem e hf, hc⟩

theorem aborted_of_advances (h : advances (.running t) es = some .idle) :
    ∃ e ∈ es, e = .abort t e.key := by
  induction es with
  | nil => cases h
  | cons e es ih =>
    obtain ⟨q, hq, h⟩ := Option.bind_eq_some_iff.mp h
    cases e with
    | start u k => cases (advance_start.mp hq).1
    | pass u k => cases (advance_pass.mp hq).1
    | complete u k =>
      obtain ⟨-, rfl⟩ := advance_complete.mp hq
      cases (advances_done h).1
    | abort u k =>
      obtain ⟨hu, -⟩ := advance_abort.mp hq
      cases hu
      exact ⟨_, List.mem_cons_self .., rfl⟩
    | reenter u k =>
      obtain ⟨hu, rfl⟩ := advance_reenter.mp hq
      cases hu
      obtain ⟨f, hf, ha⟩ := ih h
      exact ⟨f, List.mem_cons_of_mem _ hf, ha⟩

variable [DecidableEq κ]

/-- The phase of task `k` after the trace, if its events follow the rules. -/
def follow (k : κ) (es : List (Event τ κ)) : Option (Phase τ) :=
  advances .idle (es.filter fun e => e.key = k)

theorem follow_other (h : e.key ≠ k) : follow k (es ++ [e]) = follow k es := by
  simp [follow, List.filter_append, h]

theorem follow_append :
    follow k (es ++ fs) =
      (follow k es).bind fun p => advances p (fs.filter fun e => e.key = k) := by
  rw [follow, List.filter_append, advances_append, follow]

theorem follow_next (h : follow k es = some p) (hk : e.key = k) (ha : advance p e = some q) :
    follow k (es ++ [e]) = some q := by
  simp [follow_append, h, hk, advances, ha]

theorem follow_pass (h : follow k es = some .done) (l : κ) (p : Phase τ)
    (hl : follow l es = some p) : follow l (es ++ [.pass t k]) = some p := by
  by_cases hlk : l = k
  · subst hlk
    obtain rfl : p = .done := Option.some.inj (hl.symm.trans h)
    exact follow_next h rfl rfl
  · exact (follow_other (Ne.symm hlk)).trans hl

theorem follow_split (h : follow k (es ++ e :: fs) = some p) (hk : e.key = k) :
    ∃ q r, follow k es = some q ∧ advance q e = some r ∧
      advances r (fs.filter fun e => e.key = k) = some p := by
  rw [follow_append, List.filter_cons_of_pos (by simpa using hk)] at h
  obtain ⟨q, hq, h⟩ := Option.bind_eq_some_iff.mp h
  obtain ⟨r, hr, h⟩ := Option.bind_eq_some_iff.mp h
  exact ⟨q, r, hq, hr, h⟩

/-- A trace in which no task runs twice at a time or again once it has been completed. -/
structure Proper (es : List (Event τ κ)) : Prop where
  exclusive : ∀ xs ys zs t u k, es = xs ++ .start t k :: (ys ++ .start u k :: zs) →
    .abort t k ∈ ys
  final : ∀ xs ys t k, es = xs ++ .complete t k :: ys →
    ∀ e ∈ ys, e.key = k → ∃ u, e = .pass u k
  passed : ∀ xs ys t k, es = xs ++ .pass t k :: ys → ∃ u, .complete u k ∈ xs
  retried : ∀ xs ys t k, es = xs ++ .abort t k :: ys →
    ∀ e ∈ (ys.filter fun e => e.key = k).head?, ∃ u, e = .start u k
  owned : ∀ xs ys t k, es = xs ++ .complete t k :: ys ∨ es = xs ++ .abort t k :: ys ∨
    es = xs ++ .reenter t k :: ys → follow k xs = some (.running t)

theorem proper_of_follow (h : ∀ k, ∃ p, follow k es = some p) : Proper es where
  exclusive := by
    rintro xs ys zs t u k rfl
    obtain ⟨p, hp⟩ := h k
    obtain ⟨q, r, -, hr, hys⟩ := follow_split hp rfl
    obtain ⟨-, rfl⟩ := advance_start.mp hr
    rw [List.filter_append, List.filter_cons_of_pos (by simp [Event.key]), advances_append] at hys
    obtain ⟨q', hq', hzs⟩ := Option.bind_eq_some_iff.mp hys
    obtain ⟨r', hr', -⟩ := Option.bind_eq_some_iff.mp hzs
    obtain ⟨rfl, -⟩ := advance_start.mp hr'
    obtain ⟨e, he, heq⟩ := aborted_of_advances hq'
    obtain ⟨hmem, hkey⟩ := List.mem_filter.mp he
    rw [heq, of_decide_eq_true hkey] at hmem
    exact hmem
  final := by
    rintro xs ys t k rfl e he hk
    obtain ⟨p, hp⟩ := h k
    obtain ⟨q, r, -, hr, hys⟩ := follow_split hp rfl
    obtain ⟨-, rfl⟩ := advance_complete.mp hr
    obtain ⟨u, hu⟩ := (advances_done hys).2 e (List.mem_filter.mpr ⟨he, decide_eq_true hk⟩)
    exact ⟨u, hk ▸ hu⟩
  passed := by
    rintro xs ys t k rfl
    obtain ⟨p, hp⟩ := h k
    obtain ⟨q, r, hxs, hr, -⟩ := follow_split hp rfl
    obtain ⟨rfl, -⟩ := advance_pass.mp hr
    obtain ⟨e, he, u, heq⟩ := completed_of_advances hxs (by simp)
    obtain ⟨hmem, hkey⟩ := List.mem_filter.mp he
    rw [heq, of_decide_eq_true hkey] at hmem
    exact ⟨u, hmem⟩
  retried := by
    rintro xs ys t k rfl e he
    obtain ⟨p, hp⟩ := h k
    obtain ⟨q, r, -, hr, hys⟩ := follow_split hp rfl
    obtain ⟨-, rfl⟩ := advance_abort.mp hr
    cases hfilter : ys.filter fun e => e.key = k with
    | nil => simp [hfilter] at he
    | cons f fs =>
      obtain rfl : f = e := by simpa [hfilter] using he
      have hmem : f ∈ ys.filter fun e => e.key = k := by
        rw [hfilter]
        exact List.mem_cons_self ..
      have hkey : f.key = k := of_decide_eq_true (List.mem_filter.mp hmem).2
      rw [hfilter, advances_cons] at hys
      cases f with
      | start u k' => exact ⟨u, hkey ▸ rfl⟩
      | _ => cases hys
  owned := by
    rintro xs ys t k hes
    obtain ⟨p, hp⟩ := h k
    have hrunning : ∀ e : Event τ κ, es = xs ++ e :: ys → e.key = k →
        (∀ q r, advance q e = some r → q = .running t) → follow k xs = some (.running t) := by
      rintro e rfl hk hrun
      obtain ⟨q, r, hxs, hr, -⟩ := follow_split hp hk
      rw [hxs, hrun q r hr]
    rcases hes with hes | hes | hes
    · exact hrunning _ hes rfl fun q r hr => (advance_complete.mp hr).1
    · exact hrunning _ hes rfl fun q r hr => (advance_abort.mp hr).1
    · exact hrunning _ hes rfl fun q r hr => (advance_reenter.mp hr).1

end

end SimPLCity.OneTime
