import Mathlib.Data.List.Basic
import Mathlib.Data.List.Nodup
import Mathlib.Logic.Function.Basic

/-! Doubly linked lists whose links are fields of the elements: the fields, the two writes that
append and remove an element, and the list that they stand for. -/

namespace SimPLCity.IntrusiveList

structure Links (α : Type*) where
  first : Option α := none
  last : Option α := none
  previous : α → Option α := fun _ => none
  next : α → Option α := fun _ => none
  linked : α → Bool := fun _ => false

section
variable {α : Type*} [DecidableEq α]

/-- A new element, not linked. -/
def Links.reset (q : Links α) (w : α) : Links α :=
  { q with
    previous := Function.update q.previous w none
    next := Function.update q.next w none
    linked := Function.update q.linked w false }

def Links.append (q : Links α) (w : α) : Links α :=
  let q := { q with
    previous := Function.update q.previous w q.last
    next := Function.update q.next w none
    linked := Function.update q.linked w true }
  let q := match q.last with
    | some l => { q with next := Function.update q.next l (some w) }
    | none => { q with first := some w }
  { q with last := some w }

def Links.remove (q : Links α) (w : α) : Links α :=
  if q.linked w then
    let q := match q.previous w with
      | some p => { q with next := Function.update q.next p (q.next w) }
      | none => { q with first := q.next w }
    let q := match q.next w with
      | some n => { q with previous := Function.update q.previous n (q.previous w) }
      | none => { q with last := q.previous w }
    { q with linked := Function.update q.linked w false }
  else q

end

/-- The links are those of the list. -/
structure Represents {α : Type*} (q : Links α) (l : List α) : Prop where
  nodup : l.Nodup
  linked : ∀ w, q.linked w = true ↔ w ∈ l
  first : q.first = l.head?
  last : q.last = l.getLast?
  next : ∀ l₁ w l₂, l = l₁ ++ w :: l₂ → q.next w = l₂.head?
  previous : ∀ l₁ w l₂, l = l₁ ++ w :: l₂ → q.previous w = l₁.getLast?

section
variable {α : Type*} {q : Links α} {l l₁ l₂ a b : List α} {w v : α}

theorem represents_empty : Represents ({} : Links α) [] := by
  constructor <;> simp

theorem split_append (h : l₁ ++ l₂ = a ++ v :: b) :
    (∃ c, l₁ = a ++ v :: c ∧ b = c ++ l₂) ∨ ∃ c, l₂ = c ++ v :: b ∧ a = l₁ ++ c := by
  rcases List.append_eq_append_iff.mp h with ⟨c, rfl, rfl⟩ | ⟨c, rfl, hc⟩
  · exact Or.inr ⟨c, rfl, rfl⟩
  · cases c with
    | nil => exact Or.inr ⟨[], by simpa using hc.symm, by simp⟩
    | cons x c =>
      simp only [List.cons_append, List.cons.injEq] at hc
      obtain ⟨rfl, rfl⟩ := hc
      exact Or.inl ⟨c, rfl, rfl⟩

theorem not_mem_sides (hn : (a ++ v :: b).Nodup) : v ∉ a ∧ v ∉ b := by
  obtain ⟨_, hb, hab⟩ := List.nodup_append.mp hn
  exact ⟨fun hv => hab v hv v List.mem_cons_self rfl, (List.nodup_cons.mp hb).1⟩

variable [DecidableEq α]

theorem Represents.reset (h : Represents q l) (hw : w ∉ l) : Represents (q.reset w) l where
  nodup := h.nodup
  linked := fun v => by
    by_cases hv : v = w
    · subst hv
      simp [Links.reset, hw]
    · simp [Links.reset, hv, h.linked]
  first := h.first
  last := h.last
  next := fun l₁ v l₂ hl => by
    have hv : v ≠ w := by
      rintro rfl
      simp [hl] at hw
    simp [Links.reset, hv, h.next l₁ v l₂ hl]
  previous := fun l₁ v l₂ hl => by
    have hv : v ≠ w := by
      rintro rfl
      simp [hl] at hw
    simp [Links.reset, hv, h.previous l₁ v l₂ hl]

theorem append_linked : (q.append w).linked v = if v = w then true else q.linked v := by
  cases hq : q.last <;> by_cases hv : v = w <;> simp [Links.append, hq, hv]

theorem append_first : (q.append w).first = if q.last = none then some w else q.first := by
  cases hq : q.last <;> simp [Links.append, hq]

theorem append_last : (q.append w).last = some w := rfl

theorem append_next (hw : q.last ≠ some w) : (q.append w).next v =
    if q.last = some v then some w else if v = w then none else q.next v := by
  cases hq : q.last with
  | none => by_cases hv : v = w <;> simp [Links.append, hq, hv]
  | some x =>
    have hxw : x ≠ w := by
      rintro rfl
      exact hw hq
    by_cases hvx : v = x
    · simp [Links.append, hq, hvx]
    · by_cases hv : v = w <;> simp [Links.append, hq, hv, hvx, hxw, hxw.symm, Ne.symm hvx]

theorem append_previous : (q.append w).previous v = if v = w then q.last else q.previous v := by
  cases hq : q.last <;> by_cases hv : v = w <;> simp [Links.append, hq, hv]

theorem Represents.append (h : Represents q l) (hw : w ∉ l) :
    Represents (q.append w) (l ++ [w]) := by
  have hlast : q.last ≠ some w := by
    rw [h.last]
    exact fun hl => hw (List.mem_of_getLast? hl)
  have hne : ∀ {c v d}, l = c ++ v :: d → v ≠ w := by
    rintro c v d rfl rfl
    simp at hw
  refine ⟨?_, fun v => ?_, ?_, by simp [append_last], fun a v b hl => ?_, fun a v b hl => ?_⟩
  · refine List.nodup_append.mpr ⟨h.nodup, by simp, fun v hv x hx => ?_⟩
    rw [List.mem_singleton.mp hx]
    rintro rfl
    exact hw hv
  · by_cases hv : v = w <;> simp [append_linked, hv, h.linked]
  · rw [append_first, h.last, h.first]
    cases l <;> simp
  · rw [append_next hlast]
    rcases split_append hl with ⟨c, hc, rfl⟩ | ⟨c, hc, rfl⟩
    · cases c with
      | nil => simp [h.last, hc]
      | cons y c =>
        have hv : l.getLast? ≠ some v := by
          have hn := h.nodup
          rw [hc] at hn
          intro hv
          have hlast : (y :: c).getLast? = some v := by
            simpa [hc, List.getLast?_append, List.getLast?_cons] using hv
          exact (not_mem_sides hn).2 (List.mem_of_getLast? hlast)
        simp [h.last, hv, hne hc, h.next a v _ hc]
    · obtain ⟨rfl, rfl, rfl⟩ : c = [] ∧ v = w ∧ b = [] := by
        simpa [List.singleton_eq_append_iff] using hc
      simp [hlast]
  · rw [append_previous]
    rcases split_append hl with ⟨c, hc, rfl⟩ | ⟨c, hc, rfl⟩
    · simp [hne hc, h.previous a v _ hc]
    · obtain ⟨rfl, rfl, rfl⟩ : c = [] ∧ v = w ∧ b = [] := by
        simpa [List.singleton_eq_append_iff] using hc
      simp [h.last]

theorem remove_unlinked (h : Represents q l) (hw : w ∉ l) : q.remove w = q := by
  have : q.linked w = false := by simpa using mt (h.linked w).mp hw
  simp [Links.remove, this]

theorem remove_linked : (q.remove w).linked v = if v = w then false else q.linked v := by
  by_cases hv : v = w <;> by_cases hw : q.linked w <;> cases hp : q.previous w <;>
    cases hn : q.next w <;> simp_all [Links.remove, Function.update_apply]

section
variable (hw : q.linked w = true) (hp : q.previous w ≠ some w)
include hw

theorem remove_first : (q.remove w).first = if q.previous w = none then q.next w else q.first := by
  cases h : q.previous w <;> simp only [Links.remove, hw, h, if_true] <;> split <;> simp

include hp

theorem remove_last : (q.remove w).last = if q.next w = none then q.previous w else q.last := by
  cases h : q.previous w with
  | none => cases hn : q.next w <;> simp [Links.remove, hw, h, hn]
  | some p =>
    have hne : w ≠ p := by
      rintro rfl
      exact hp h
    cases hn : q.next w <;> simp [Links.remove, hw, h, hn, hne]

theorem remove_next : (q.remove w).next v =
    if q.previous w = some v then q.next w else q.next v := by
  cases h : q.previous w with
  | none => cases hn : q.next w <;> simp [Links.remove, hw, h, hn]
  | some p =>
    have hne : w ≠ p := by
      rintro rfl
      exact hp h
    cases hn : q.next w <;> simp [Links.remove, hw, h, hn, hne, Function.update_apply, eq_comm]

theorem remove_previous : (q.remove w).previous v =
    if q.next w = some v then q.previous w else q.previous v := by
  cases h : q.previous w with
  | none => cases hn : q.next w <;> simp [Links.remove, hw, h, hn, Function.update_apply, eq_comm]
  | some p =>
    have hne : w ≠ p := by
      rintro rfl
      exact hp h
    cases hn : q.next w <;> simp [Links.remove, hw, h, hn, hne, Function.update_apply, eq_comm]

end

theorem Represents.remove (h : Represents q (l₁ ++ w :: l₂)) :
    Represents (q.remove w) (l₁ ++ l₂) := by
  have hw : q.linked w = true := (h.linked w).mpr (by simp)
  have hprevious := h.previous l₁ w l₂ rfl
  have hnext := h.next l₁ w l₂ rfl
  obtain ⟨hw₁, hw₂⟩ := not_mem_sides h.nodup
  obtain ⟨hn₁, hn₂, hdisjoint⟩ := List.nodup_append.mp h.nodup
  have hp : q.previous w ≠ some w := by
    rw [hprevious]
    exact fun hl => hw₁ (List.mem_of_getLast? hl)
  have hsides : ∀ v ∈ l₁, v ∉ l₂ := fun v hv hv₂ =>
    hdisjoint v hv v (List.mem_cons_of_mem _ hv₂) rfl
  refine ⟨?_, fun v => ?_, ?_, ?_, fun a v b hl => ?_, fun a v b hl => ?_⟩
  · exact List.nodup_append.mpr ⟨hn₁, (List.nodup_cons.mp hn₂).2, fun v hv x hx hvx =>
      hsides v hv (hvx ▸ hx)⟩
  · by_cases hv : v = w
    · subst hv
      simp [remove_linked, hw₁, hw₂]
    · simp [remove_linked, hv, h.linked]
  · rw [remove_first hw, hprevious, hnext, h.first]
    cases l₁ <;> simp
  · rw [remove_last hw hp, hprevious, hnext, h.last]
    cases l₂ <;> simp [List.getLast?_append, List.getLast?_cons]
  · rw [remove_next hw hp, hprevious, hnext]
    rcases split_append hl with ⟨c, rfl, rfl⟩ | ⟨c, rfl, rfl⟩
    · cases c with
      | nil => simp
      | cons y c =>
        have hv : (a ++ v :: y :: c).getLast? ≠ some v := fun hv => by
          have hlast : (y :: c).getLast? = some v := by
            simpa [List.getLast?_append, List.getLast?_cons] using hv
          exact (not_mem_sides hn₁).2 (List.mem_of_getLast? hlast)
        rw [if_neg hv, h.next a v (y :: c ++ w :: l₂) (by simp)]
        rfl
    · have hv : l₁.getLast? ≠ some v := fun hv =>
        hsides v (List.mem_of_getLast? hv) (by simp)
      rw [if_neg hv, h.next (l₁ ++ w :: c) v b (by simp)]
  · rw [remove_previous hw hp, hprevious, hnext]
    rcases split_append hl with ⟨c, rfl, rfl⟩ | ⟨c, rfl, rfl⟩
    · have hv : l₂.head? ≠ some v := fun hv =>
        hsides v (by simp) (List.mem_of_head? hv)
      rw [if_neg hv, h.previous a v (c ++ w :: l₂) (by simp)]
    · cases c with
      | nil => simp
      | cons y c =>
        have hv : (y :: c ++ v :: b).head? ≠ some v := fun hv => by
          have hy : y = v := by simpa using hv
          subst hy
          exact (List.nodup_cons.mp (List.nodup_cons.mp hn₂).2).1 (by simp)
        rw [if_neg hv, h.previous (l₁ ++ w :: y :: c) v b (by simp)]
        simp [List.getLast?_append, List.getLast?_cons]

theorem Represents.erase (h : Represents q l) : Represents (q.remove w) (l.erase w) := by
  by_cases hw : w ∈ l
  · obtain ⟨l₁, l₂, hl₁, rfl, herase⟩ := List.exists_erase_eq hw
    rw [herase]
    exact h.remove
  · rw [remove_unlinked h hw, List.erase_of_not_mem hw]
    exact h

end

end SimPLCity.IntrusiveList
