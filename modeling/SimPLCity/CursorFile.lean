import Mathlib.Data.List.Basic

/-! A sequence of cells with one cursor, and writing into such a sequence at an
offset. `zero` is the cell that fills a gap. -/

namespace SimPLCity.CursorFile

variable {α : Type*}

/-- `cells` replaces what lies at `offset`, and the end moves if it reaches further. -/
def overwrite (xs : List α) (offset : Nat) (cells : List α) : List α :=
  xs.take offset ++ cells ++ xs.drop (offset + cells.length)

/-- Cut to `n` cells, or fill up to `n` cells. -/
def resize (zero : α) (xs : List α) (n : Nat) : List α :=
  xs.take n ++ List.replicate (n - xs.length) zero

theorem length_overwrite {xs : List α} {offset : Nat} (cells : List α) (h : offset ≤ xs.length) :
    (overwrite xs offset cells).length = max xs.length (offset + cells.length) := by
  simp only [overwrite, List.length_append, List.length_take, List.length_drop]
  omega

@[simp] theorem overwrite_length (xs cells : List α) :
    overwrite xs xs.length cells = xs ++ cells := by
  simp [overwrite]

@[simp] theorem length_resize (zero : α) (xs : List α) (n : Nat) :
    (resize zero xs n).length = n := by
  simp only [resize, List.length_append, List.length_take, List.length_replicate]
  omega

theorem resize_of_le (zero : α) {xs : List α} {n : Nat} (h : n ≤ xs.length) :
    resize zero xs n = xs.take n := by
  simp [resize, Nat.sub_eq_zero_of_le h]

theorem resize_of_ge (zero : α) {xs : List α} {n : Nat} (h : xs.length ≤ n) :
    resize zero xs n = xs ++ List.replicate (n - xs.length) zero := by
  simp [resize, List.take_of_length_le h]

@[simp] theorem resize_length (zero : α) (xs : List α) : resize zero xs xs.length = xs := by
  simp [resize]

structure File (α : Type*) where
  cells : List α
  cursor : Nat

namespace File

/-- The cells between the cursor and the next `n`, or the end. -/
def read (f : File α) (n : Nat) : List α × File α :=
  let cells := (f.cells.drop f.cursor).take n
  (cells, { f with cursor := f.cursor + cells.length })

/-- In append mode a write goes to the end; writing nothing moves nothing. -/
def write (append : Bool) (f : File α) (cells : List α) : File α :=
  if cells = [] then f
  else
    let offset := if append then f.cells.length else f.cursor
    ⟨overwrite f.cells offset cells, offset + cells.length⟩

def seek (f : File α) (target : Nat) : File α := { f with cursor := target }

def truncate (zero : α) (f : File α) (n : Nat) : File α :=
  ⟨resize zero f.cells n, min f.cursor n⟩

end File

end SimPLCity.CursorFile
