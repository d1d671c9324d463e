import Mathlib.Logic.Function.Basic
import Mathlib.Data.List.Basic

/-! Writing to the NOR flash. The hardware programs page by page and clears bits; the simulation
checks and overwrites chunks of a file. Both clear the bits of the range that the source clears. -/

namespace SimPLCity.NorFlash

abbrev flashBytes : Nat := 16 * 1024 * 1024

abbrev Flash := Nat → UInt8

/-- A page program of the W25Q: bits can only be cleared, and behind the last byte of a page comes
the first. -/
def pageProgram (flash : Flash) (address : Nat) : List UInt8 → Flash
  | [] => flash
  | b :: bytes =>
    pageProgram (Function.update flash address (flash address &&& b))
      (address / 256 * 256 + (address + 1) % 256) bytes

/-- How the commands of a page end; where the flash does not become ready, any bits of the page may
be `kept`. -/
inductive PageStatus
  | done
  | commandFailed
  | transmitFailed (programmed : Nat)
  | notReady (kept : List UInt8)
deriving DecidableEq, Repr

/-- The bytes as far as they are programmed. -/
def partly (kept bytes : List UInt8) : List UInt8 := bytes.mapIdx fun i b => b ||| kept.getD i 0

/-- `qspi_write` of the hardware, from its `page`th page on. -/
def qspiProgram (status : Nat → PageStatus) (page : Nat) (flash : Flash) (offset : Nat)
    (input : List UInt8) : Bool × Flash :=
  if _hinput : input = [] then (true, flash)
  else
    let pageBytes := min input.length (256 - (offset &&& 0xFF))
    match status page with
    | .commandFailed => (false, flash)
    | .transmitFailed programmed =>
      (false, pageProgram flash offset (input.take (min programmed pageBytes)))
    | .notReady kept => (false, pageProgram flash offset (partly kept (input.take pageBytes)))
    | .done =>
      qspiProgram status (page + 1) (pageProgram flash offset (input.take pageBytes))
        (offset + pageBytes) (input.drop pageBytes)
termination_by input.length
decreasing_by
  have hpos := List.length_pos_iff.mpr _hinput
  have hand : offset &&& 0xFF = offset % 2 ^ 8 := Nat.and_two_pow_sub_one_eq_mod offset 8
  rw [List.length_drop]
  omega

def qspiWriteStm32 (status : Nat → PageStatus) (flash : Flash) (offset : Nat) (source : List UInt8) :
    Bool × Flash :=
  if offset > flashBytes ∨ source.length > flashBytes - offset then (false, flash)
  else qspiProgram status 0 flash offset source

/-- How the accesses to the file for a chunk end. -/
inductive ChunkStatus
  | done
  | readFailed
  | writeFailed (written : Nat)
deriving DecidableEq, Repr

def fileRead (flash : Flash) (offset count : Nat) : List UInt8 :=
  (List.range count).map fun index => flash (offset + index)

def fileWrite (flash : Flash) (offset : Nat) (bytes : List UInt8) : Flash :=
  fun a => if offset ≤ a then bytes.getD (a - offset) (flash a) else flash a

/-- `qspi_write` of the simulation, from its `chunk`th chunk on. -/
def qspiOverwrite (status : Nat → ChunkStatus) (chunk : Nat) (flash : Flash) (offset : Nat)
    (input : List UInt8) : Bool × Flash :=
  if _hinput : input = [] then (true, flash)
  else
    let count := min input.length 256
    match status chunk with
    | .readFailed => (false, flash)
    | .writeFailed written =>
      if (List.zip (fileRead flash offset count) input).all fun (current, b) => current &&& b = b then
        (false, fileWrite flash offset (input.take (min written count)))
      else (false, flash)
    | .done =>
      if (List.zip (fileRead flash offset count) input).all fun (current, b) => current &&& b = b then
        qspiOverwrite status (chunk + 1) (fileWrite flash offset (input.take count)) (offset + count)
          (input.drop count)
      else (false, flash)
termination_by input.length
decreasing_by
  have hpos := List.length_pos_iff.mpr _hinput
  rw [List.length_drop]
  omega

def qspiWriteLinux (status : Nat → ChunkStatus) (flash : Flash) (offset : Nat) (source : List UInt8) :
    Bool × Flash :=
  if offset > flashBytes ∨ source.length > flashBytes - offset then (false, flash)
  else qspiOverwrite status 0 flash offset source

/-- What a write is for: the source's zeros are cleared in the range, and nothing else changes. -/
def programmed (flash : Flash) (offset : Nat) (source : List UInt8) : Flash := fun a =>
  if offset ≤ a then
    match source[a - offset]? with
    | some b => flash a &&& b
    | none => flash a
  else flash a

section
variable {flash : Flash} {offset : Nat} {source : List UInt8} {a : Nat}

theorem programmed_nil (flash : Flash) (offset : Nat) : programmed flash offset [] = flash := by
  funext a
  simp [programmed]

theorem programmed_inside (h : offset ≤ a) (hlt : a - offset < source.length) :
    programmed flash offset source a = flash a &&& source[a - offset] := by
  rw [programmed, if_pos h, List.getElem?_eq_getElem hlt]

theorem programmed_outside (h : a < offset ∨ offset + source.length ≤ a) :
    programmed flash offset source a = flash a := by
  unfold programmed
  split
  · rw [List.getElem?_eq_none (by omega)]
  · rfl

theorem programmed_append (flash : Flash) (offset : Nat) (source rest : List UInt8) :
    programmed (programmed flash offset source) (offset + source.length) rest =
      programmed flash offset (source ++ rest) := by
  funext a
  by_cases hbefore : offset + source.length ≤ a
  · by_cases hinside : a - (offset + source.length) < rest.length
    · rw [programmed_inside hbefore hinside, programmed_outside (Or.inr hbefore),
        programmed_inside (by omega) (by rw [List.length_append]; omega),
        List.getElem_append_right (by omega)]
      congr 2
      omega
    · rw [programmed_outside (by omega), programmed_outside (by omega),
        programmed_outside (by rw [List.length_append]; omega)]
  · rw [programmed_outside (by omega)]
    by_cases hinside : offset ≤ a
    · rw [programmed_inside hinside (by omega), programmed_inside hinside (by simp; omega),
        List.getElem_append_left]
    · rw [programmed_outside (by omega), programmed_outside (by omega)]

theorem pageProgram_eq {bytes : List UInt8} (hpage : offset % 256 + bytes.length ≤ 256) :
    pageProgram flash offset bytes = programmed flash offset bytes := by
  induction bytes generalizing flash offset with
  | nil => rw [pageProgram, programmed_nil]
  | cons b bytes ih =>
    have hfirst : Function.update flash offset (flash offset &&& b) = programmed flash offset [b] := by
      funext a
      by_cases ha : a = offset
      · subst ha
        simp [programmed]
      · rw [Function.update_of_ne ha, programmed_outside (by rw [List.length_singleton]; omega)]
    rw [List.length_cons] at hpage
    have hsplit := programmed_append flash offset [b] bytes
    rw [List.singleton_append, List.length_singleton] at hsplit
    rw [pageProgram, hfirst, ← hsplit]
    cases bytes with
    | nil => rw [pageProgram, programmed_nil]
    | cons b' bytes =>
      rw [List.length_cons] at hpage ih
      have hnext : offset / 256 * 256 + (offset + 1) % 256 = offset + 1 := by omega
      rw [hnext]
      refine ih ?_
      omega

theorem qspiProgram_eq {status : Nat → PageStatus} (hdone : ∀ n, status n = .done) (page : Nat)
    (flash : Flash) (offset : Nat) (input : List UInt8) :
    qspiProgram status page flash offset input = (true, programmed flash offset input) := by
  fun_induction qspiProgram status page flash offset input with
  | case1 => rw [programmed_nil]
  | case2 page _ _ _ _ hstatus | case3 page _ _ _ _ _ _ hstatus | case4 page _ _ _ _ _ _ hstatus =>
    rw [hdone page] at hstatus
    cases hstatus
  | case5 page flash offset input hinput pageBytes hstatus ih =>
    have hand : offset &&& 0xFF = offset % 2 ^ 8 := Nat.and_two_pow_sub_one_eq_mod offset 8
    have hlength : (input.take pageBytes).length = pageBytes := by
      rw [List.length_take]
      omega
    rw [ih, pageProgram_eq (by rw [hlength]; omega)]
    have happend := programmed_append flash offset (input.take pageBytes) (input.drop pageBytes)
    rw [hlength, List.take_append_drop] at happend
    rw [happend]

theorem fileWrite_eq {count : Nat} {input : List UInt8}
    (hcheck : ((List.zip (fileRead flash offset count) input).all fun (current, b) =>
      current &&& b = b) = true) :
    fileWrite flash offset (input.take count) = programmed flash offset (input.take count) := by
  funext a
  unfold fileWrite programmed
  split
  · cases hb : (input.take count)[a - offset]? with
    | none => rw [List.getD_eq_getElem?_getD, hb, Option.getD_none]
    | some b =>
      rw [List.getD_eq_getElem?_getD, hb, Option.getD_some]
      obtain ⟨hlt, hget⟩ := List.getElem?_eq_some_iff.mp hb
      rw [List.length_take] at hlt
      rw [List.getElem?_take_of_lt (by omega)] at hb
      have hread : (fileRead flash offset count)[a - offset]? = some (flash a) := by
        rw [fileRead, List.getElem?_map, List.getElem?_range (by omega), Option.map_some]
        congr 2
        omega
      have hzip : (List.zip (fileRead flash offset count) input)[a - offset]? = some (flash a, b) :=
        List.getElem?_zip_eq_some.mpr ⟨hread, hb⟩
      have hand := List.all_eq_true.mp hcheck _ (List.mem_of_getElem? hzip)
      exact (of_decide_eq_true hand).symm
  · rfl

theorem qspiOverwrite_eq {status : Nat → ChunkStatus} {chunk : Nat} {flash image : Flash}
    {offset : Nat} {input : List UInt8}
    (h : qspiOverwrite status chunk flash offset input = (true, image)) :
    image = programmed flash offset input := by
  fun_induction qspiOverwrite status chunk flash offset input with
  | case1 =>
    cases h
    rw [programmed_nil]
  | case2 | case3 | case4 | case6 => cases h
  | case5 chunk flash offset input hinput count hstatus hcheck ih =>
    have hlength : (input.take count).length = count := by
      rw [List.length_take]
      omega
    have happend := programmed_append flash offset (input.take count) (input.drop count)
    rw [hlength, List.take_append_drop] at happend
    rw [ih h, fileWrite_eq hcheck, happend]

end

theorem qspi_write_agrees (flash : Flash) (offset : Nat) (source : List UInt8) :
    (offset + source.length ≤ flashBytes → ∀ status, (∀ n, status n = .done) →
      ∃ image, qspiWriteStm32 status flash offset source = (true, image) ∧
        (∀ a (h : offset ≤ a ∧ a < offset + source.length),
          image a = flash a &&& source[a - offset]) ∧
        (∀ a, a < offset ∨ offset + source.length ≤ a → image a = flash a) ∧
        ∀ io image', qspiWriteLinux io flash offset source = (true, image') → image' = image) ∧
    (¬ offset + source.length ≤ flashBytes → ∀ status io,
      qspiWriteStm32 status flash offset source = (false, flash) ∧
        qspiWriteLinux io flash offset source = (false, flash)) := by
  constructor
  · intro hrange status hdone
    have hchecks : ¬ (offset > flashBytes ∨ source.length > flashBytes - offset) := by omega
    refine ⟨programmed flash offset source, ?_, fun a h => ?_, fun a h => ?_, fun io image' h => ?_⟩
    · rw [qspiWriteStm32, if_neg hchecks, qspiProgram_eq hdone]
    · exact programmed_inside h.1 _
    · exact programmed_outside h
    · rw [qspiWriteLinux, if_neg hchecks] at h
      exact qspiOverwrite_eq h
  · intro hrange status io
    have hchecks : offset > flashBytes ∨ source.length > flashBytes - offset := by omega
    exact ⟨if_pos hchecks, if_pos hchecks⟩

theorem qspi_write_agrees_unaligned :
    ∃ image, qspiWriteStm32 (fun _ => .done) (fun _ => 0x3F) 250 (List.replicate 10 0xF0) =
        (true, image) ∧ image 249 = 0x3F ∧ image 250 = 0x30 ∧ image 259 = 0x30 ∧ image 0 = 0x3F := by
  obtain ⟨image, himage, hinside, houtside, -⟩ :=
    (qspi_write_agrees (fun _ => 0x3F) 250 (List.replicate 10 0xF0)).1 (by decide) (fun _ => .done)
      fun _ => rfl
  exact ⟨image, himage, houtside 249 (by decide), (hinside 250 (by decide)).trans (by decide),
    (hinside 259 (by decide)).trans (by decide), houtside 0 (by decide)⟩

end SimPLCity.NorFlash
