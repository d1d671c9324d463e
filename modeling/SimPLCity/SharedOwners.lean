import Mathlib.Data.List.Perm.Basic
import Mathlib.Data.List.Nodup
import Mathlib.Logic.Function.Basic

/-! Objects that are shared by counting their owners, and destroyed by the last one. -/

namespace SimPLCity.SharedOwners

/-- The objects are numbered as they are made. -/
structure Shared where
  owners : Nat → Nat := fun _ => 0
  next : Nat := 0
  destroyed : List Nat := []

/-- `std::make_shared`. -/
def Shared.make (s : Shared) : Shared :=
  { s with owners := Function.update s.owners s.next 1, next := s.next + 1 }

/-- A pointer is copied; a null pointer has no object. -/
def Shared.copy (s : Shared) : Option Nat → Shared
  | none => s
  | some c => { s with owners := Function.update s.owners c (s.owners c + 1) }

/-- A pointer is dropped. -/
def Shared.release (s : Shared) : Option Nat → Shared
  | none => s
  | some c => { s with
      owners := Function.update s.owners c (s.owners c - 1)
      destroyed := if s.owners c = 1 then s.destroyed ++ [c] else s.destroyed }

/-- The pointers are those in `held`: the counts say how many there are, and the objects without a
pointer are those destroyed, once each. -/
structure Counts (s : Shared) (held : List Nat) : Prop where
  owners : ∀ c, s.owners c = held.count c
  made : ∀ c ∈ held, c < s.next
  destroyed : ∀ c, c ∈ s.destroyed ↔ c < s.next ∧ c ∉ held
  nodup : s.destroyed.Nodup

variable {s : Shared} {held : List Nat}

theorem counts_nothing : Counts {} [] where
  owners := fun _ => rfl
  made := nofun
  destroyed := fun c => ⟨nofun, fun h => absurd h.1 (Nat.not_lt_zero c)⟩
  nodup := List.nodup_nil

theorem Counts.perm (h : Counts s held) {held' : List Nat} (hperm : held.Perm held') : Counts s held' where
  owners := fun c => (h.owners c).trans (hperm.count_eq c)
  made := fun c hc => h.made c (hperm.mem_iff.mpr hc)
  destroyed := fun c => (h.destroyed c).trans (and_congr_right fun _ => not_congr hperm.mem_iff)
  nodup := h.nodup

theorem Counts.make (h : Counts s held) : Counts s.make (s.next :: held) := by
  have hnew : s.next ∉ held := fun hc => Nat.lt_irrefl _ (h.made _ hc)
  refine ⟨fun c => ?_, fun c hc => ?_, fun c => ?_, h.nodup⟩
  · by_cases hc : c = s.next
    · subst hc
      simp [Shared.make, List.count_eq_zero_of_not_mem hnew]
    · simp [Shared.make, Function.update_of_ne hc, h.owners, List.count_cons_of_ne (Ne.symm hc)]
  · rcases List.mem_cons.mp hc with rfl | hc
    · exact Nat.lt_succ_self _
    · exact Nat.lt_succ_of_lt (h.made c hc)
  · rw [Shared.make, h.destroyed, List.mem_cons, Nat.lt_succ_iff_lt_or_eq]
    refine ⟨fun ⟨hlt, hc⟩ => ⟨Or.inl hlt, not_or.mpr ⟨Nat.ne_of_lt hlt, hc⟩⟩, fun ⟨hle, hc⟩ => ?_⟩
    exact ⟨hle.resolve_right fun heq => hc (Or.inl heq), fun hmem => hc (Or.inr hmem)⟩

theorem Counts.copy (h : Counts s held) {c : Option Nat} (hc : ∀ d ∈ c, d ∈ held) :
    Counts (s.copy c) (c.toList ++ held) := by
  cases c with
  | none => exact h
  | some c =>
    have hmem := hc c rfl
    refine ⟨fun d => ?_, fun d hd => ?_, fun d => ?_, h.nodup⟩
    · by_cases hd : d = c
      · subst hd
        simp [Shared.copy, h.owners]
      · simp [Shared.copy, Function.update_of_ne hd, h.owners, List.count_cons_of_ne (Ne.symm hd)]
    · rcases List.mem_cons.mp hd with rfl | hd
      · exact h.made _ hmem
      · exact h.made d hd
    · refine (h.destroyed d).trans (and_congr_right fun _ => not_congr ⟨List.mem_cons_of_mem c, fun hd => ?_⟩)
      rcases List.mem_cons.mp hd with rfl | hd
      · exact hmem
      · exact hd

theorem Counts.release {c : Option Nat} (h : Counts s (c.toList ++ held)) : Counts (s.release c) held := by
  cases c with
  | none => exact h
  | some c =>
    have hcount : s.owners c = held.count c + 1 := by
      rw [h.owners]
      exact List.count_cons_self
    have hlast : s.owners c = 1 ↔ c ∉ held := by
      rw [hcount, ← List.count_eq_zero]
      omega
    refine ⟨fun d => ?_, fun d hd => h.made d (List.mem_cons_of_mem c hd), fun d => ?_, ?_⟩
    · by_cases hd : d = c
      · subst hd
        simp [Shared.release, hcount]
      · have hd' := h.owners d
        rw [Option.toList_some, List.singleton_append, List.count_cons_of_ne (Ne.symm hd)] at hd'
        simp [Shared.release, Function.update_of_ne hd, hd']
    · have hdestroyed := h.destroyed d
      rw [Option.toList_some, List.singleton_append, List.mem_cons, not_or] at hdestroyed
      have hmade := h.made c List.mem_cons_self
      simp only [Shared.release]
      split
      · rename_i hone
        rw [List.mem_append, List.mem_singleton, hdestroyed]
        refine ⟨fun hd => ?_, fun hd => ?_⟩
        · rcases hd with ⟨hlt, -, hd⟩ | rfl
          · exact ⟨hlt, hd⟩
          · exact ⟨hmade, hlast.mp hone⟩
        · by_cases heq : d = c
          · exact Or.inr heq
          · exact Or.inl ⟨hd.1, heq, hd.2⟩
      · rename_i hmore
        rw [hdestroyed]
        refine and_congr_right fun _ => ⟨And.right, fun hd => ⟨?_, hd⟩⟩
        rintro rfl
        exact hmore (hlast.mpr hd)
    · simp only [Shared.release]
      split
      · refine List.Nodup.append h.nodup (List.nodup_singleton c) ?_
        intro d hd hdc
        obtain rfl := List.mem_singleton.mp hdc
        exact ((h.destroyed d).mp hd).2 List.mem_cons_self
      · exact h.nodup

end SimPLCity.SharedOwners
