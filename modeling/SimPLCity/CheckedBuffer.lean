import Mathlib.Data.List.Infix
import Mathlib.Data.List.Basic

/-! Arrays of characters whose stores are checked against their size. A computation over such
arrays answers, stops with an error, or fails because it left an array; `Refines` says that it
never fails and does what a computation over plain strings does. -/

namespace SimPLCity.CheckedBuffer

structure Buffer (size : Nat) where
  cells : List Char
  length_eq : cells.length = size

/-- Nothing when a store is out of bounds. -/
abbrev Checked (ε α : Type) : Type := ExceptT ε Option α

/-- The null character that ends a string. -/
def terminator : Char := Char.ofNat 0

section
variable {ε : Type} {size : Nat}

def Buffer.zeros (size : Nat) : Buffer size := ⟨List.replicate size terminator, by simp⟩

def Buffer.store (b : Buffer size) (i : Nat) (c : Char) : Checked ε (Buffer size) :=
  if i < size then pure ⟨b.cells.set i c, by rw [List.length_set, b.length_eq]⟩
  else ExceptT.mk none

/-- `memcpy` to the cells from `i` on -/
def Buffer.copy (b : Buffer size) (i : Nat) : List Char → Checked ε (Buffer size)
  | [] => pure b
  | c :: cs => do
    let b ← b.store i c
    b.copy (i + 1) cs

/-- The string that an array holds: what stands before its first terminator. -/
def Buffer.text (b : Buffer size) : List Char := b.cells.takeWhile (· ≠ terminator)

def Buffer.Begins (b : Buffer size) (s : List Char) : Prop := s <+: b.cells

/-- The array begins with the string and its terminator. -/
def Buffer.Holds (b : Buffer size) (s : List Char) : Prop := b.Begins (s ++ [terminator])

section
variable {b : Buffer size} {s t : List Char}

theorem begins_nil : b.Begins [] := List.nil_prefix

theorem Buffer.Begins.mono (h : b.Begins s) (ht : t <+: s) : b.Begins t := ht.trans h

theorem Buffer.Begins.length_le (h : b.Begins s) : s.length ≤ size :=
  b.length_eq ▸ List.IsPrefix.length_le h

theorem Buffer.Holds.length_lt (h : b.Holds s) : s.length < size := by
  have hle := Begins.length_le h
  rwa [List.length_append, List.length_singleton] at hle

theorem Buffer.Holds.begins (h : b.Holds s) : b.Begins s := h.mono (List.prefix_append ..)

theorem Buffer.Begins.getElem? (h : b.Begins s) {i : Nat} (hi : i < s.length) :
    b.cells[i]? = s[i]? := by
  obtain ⟨rest, hrest⟩ := h
  rw [← hrest, List.getElem?_append_left hi]

theorem Buffer.Holds.text (h : b.Holds s) (hs : terminator ∉ s) : b.text = s := by
  obtain ⟨rest, hrest⟩ := h
  have hplain : ∀ c ∈ s, decide (c ≠ terminator) = true := by
    intro c hc
    exact decide_eq_true fun he => hs (he ▸ hc)
  rw [Buffer.text, ← hrest, List.append_assoc, List.takeWhile_append_of_pos hplain]
  simp

theorem Buffer.Begins.set (h : b.Begins s) (hroom : s.length < size) (c : Char) :
    s ++ [c] <+: b.cells.set s.length c := by
  obtain ⟨rest, hrest⟩ := h
  have hlength := b.length_eq
  rw [← hrest, List.length_append] at hlength
  cases rest with
  | nil => exact absurd hlength (by simpa using hroom.ne)
  | cons d rest =>
    refine ⟨rest, ?_⟩
    rw [← hrest, List.set_append_right _ _ le_rfl, Nat.sub_self, List.set_cons_zero,
      List.append_assoc, List.singleton_append]

theorem Buffer.Begins.store (h : b.Begins s) (hroom : s.length < size) (c : Char) :
    ∃ b' : Buffer size, b'.Begins (s ++ [c]) ∧ b.store (ε := ε) s.length c = pure b' :=
  ⟨⟨b.cells.set s.length c, by rw [List.length_set, b.length_eq]⟩, h.set hroom c, if_pos hroom⟩

theorem Buffer.Begins.copy (h : b.Begins s) (cs : List Char) (hroom : s.length + cs.length ≤ size) :
    ∃ b' : Buffer size, b'.Begins (s ++ cs) ∧ b.copy (ε := ε) s.length cs = pure b' := by
  induction cs generalizing b s with
  | nil => exact ⟨b, by rwa [List.append_nil], rfl⟩
  | cons c cs ih =>
    rw [List.length_cons] at hroom
    obtain ⟨b', h', hstore⟩ := h.store (ε := ε) (by omega) c
    obtain ⟨b'', h'', hcopy⟩ := ih h' (by rw [List.length_append, List.length_singleton]; omega)
    refine ⟨b'', by rwa [List.append_assoc, List.singleton_append] at h'', ?_⟩
    rw [List.length_append, List.length_singleton] at hcopy
    rw [Buffer.copy, hstore, pure_bind, hcopy]

end

/-- The computation over arrays stays within them and answers as the one over strings does. -/
inductive Refines {α β : Type} (R : α → β → Prop) : Checked ε α → Except ε β → Prop
  | error (e : ε) : Refines R (throw e) (.error e)
  | ok {a : α} {b : β} (h : R a b) : Refines R (pure a) (.ok b)

namespace Refines
variable {α β γ δ : Type} {R : α → β → Prop} {S : γ → δ → Prop}

theorem bind {x : Checked ε α} {y : Except ε β} {f : α → Checked ε γ} {g : β → Except ε δ}
    (h : Refines R x y) (hf : ∀ a b, R a b → Refines S (f a) (g b)) :
    Refines S (x >>= f) (y >>= g) := by
  cases h with
  | error e => exact .error e
  | ok h =>
    rw [pure_bind]
    exact hf _ _ h

/-- What is known of the string's computation may be used of its value. -/
theorem and_ok {P : β → Prop} {x : Checked ε α} {y : Except ε β} (h : Refines R x y)
    (hP : ∀ b, y = .ok b → P b) : Refines (fun a b => R a b ∧ P b) x y := by
  cases h with
  | error e => exact .error e
  | ok h => exact .ok ⟨h, hP _ rfl⟩

theorem foldlM {ι : Type} {f : α → ι → Checked ε α} {g : β → ι → Except ε β}
    (hf : ∀ i a b, R a b → Refines R (f a i) (g b i)) (is : List ι) {a : α} {b : β}
    (h : R a b) : Refines R (is.foldlM f a) (is.foldlM g b) := by
  induction is generalizing a b with
  | nil => exact .ok h
  | cons i is ih =>
    rw [List.foldlM_cons, List.foldlM_cons]
    exact (hf i a b h).bind fun a b h => ih h

theorem store {b : Buffer size} {s : List Char} {c : Char} {f : Buffer size → Checked ε γ}
    {y : Except ε δ} (h : b.Begins s) (hroom : s.length < size)
    (hf : ∀ b' : Buffer size, b'.Begins (s ++ [c]) → Refines S (f b') y) :
    Refines S (b.store s.length c >>= f) y := by
  obtain ⟨b', h', hstore⟩ := h.store (ε := ε) hroom c
  rw [hstore, pure_bind]
  exact hf b' h'

theorem copy {b : Buffer size} {s cs : List Char} {f : Buffer size → Checked ε γ}
    {y : Except ε δ} (h : b.Begins s) (hroom : s.length + cs.length ≤ size)
    (hf : ∀ b' : Buffer size, b'.Begins (s ++ cs) → Refines S (f b') y) :
    Refines S (b.copy s.length cs >>= f) y := by
  obtain ⟨b', h', hcopy⟩ := h.copy (ε := ε) cs hroom
  rw [hcopy, pure_bind]
  exact hf b' h'

end Refines

end

end SimPLCity.CheckedBuffer
