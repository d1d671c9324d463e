import SimPLCity.NorFlash
import SimPLCity.Runs
import Mathlib.Data.List.TakeDrop
import Mathlib.Algebra.Group.Nat.Defs

/-! The driver that LevelX calls, over the NOR flash of the hardware or the image file of the
simulation. -/

namespace SimPLCity.NorDriver
open NorFlash

abbrev eraseBlockBytes : Nat := 4096

abbrev flashBlocks : Nat := 4096

def levelxBaseAddress : Nat := 0x90000000

/-- The size of `transfer_buffer`. -/
abbrev transferBytes : Nat := 512

/-- `qspi_read` of the hardware. -/
def qspiReadStm32 (ok : Bool) (flash : Flash) (offset bytes : Nat) : Option (List UInt8) :=
  if offset > flashBytes ∨ bytes > flashBytes - offset ∨ bytes = 0 then
    if bytes = 0 then some [] else none
  else if ok then some (fileRead flash offset bytes)
  else none

/-- `qspi_read` of the simulation. -/
def qspiReadLinux (ok : Bool) (flash : Flash) (offset bytes : Nat) : Option (List UInt8) :=
  if offset ≤ flashBytes ∧ bytes ≤ flashBytes - offset then
    if ok then some (fileRead flash offset bytes) else none
  else none

def erased (flash : Flash) (offset : Nat) : Flash := fun a =>
  if offset ≤ a ∧ a < offset + eraseBlockBytes then 0xFF else flash a

/-- How the commands of an erase end; where the flash does not become ready, any bytes may be `left`
in the block. -/
inductive EraseStatus
  | done
  | commandFailed
  | notReady (left : Flash)

def qspiEraseStm32 (status : EraseStatus) (flash : Flash) (offset : Nat) : Bool × Flash :=
  if offset < flashBytes ∧ offset % eraseBlockBytes = 0 then
    match status with
    | .done => (true, erased flash offset)
    | .commandFailed => (false, flash)
    | .notReady left =>
      (false, fun a => if offset ≤ a ∧ a < offset + eraseBlockBytes then left a else flash a)
  else (false, flash)

/-- How the write of the erased block to the file ends. -/
inductive FileStatus
  | done
  | failed (written : Nat)
deriving DecidableEq, Repr

def qspiEraseLinux (status : FileStatus) (flash : Flash) (offset : Nat) : Bool × Flash :=
  let erased := List.replicate eraseBlockBytes (0xFF : UInt8)
  if offset < flashBytes ∧ offset % eraseBlockBytes = 0 then
    match status with
    | .done => (true, fileWrite flash offset erased)
    | .failed written => (false, fileWrite flash offset (erased.take written))
  else (false, flash)

/-- The part that the two platforms have of their own, for one call of the driver; `size_t` has
`width` bits, and `read` is given the number of the reads before it. -/
structure Qspi where
  width : Nat
  read : Nat → Flash → (offset bytes : Nat) → Option (List UInt8)
  write : Flash → (offset : Nat) → List UInt8 → Bool × Flash
  erase : Flash → (offset : Nat) → Bool × Flash

def byteOffset (q : Qspi) (address : Nat) : Nat :=
  (address + (2 ^ q.width - levelxBaseAddress)) % 2 ^ q.width

/-- `words * sizeof(ULONG)`. -/
def byteCount (q : Qspi) (words : Nat) : Nat := words * 4 % 2 ^ q.width

/-- The bytes of a word in memory. -/
def wordBytes (w : UInt32) : List UInt8 :=
  [w.toUInt8, (w >>> 8).toUInt8, (w >>> 16).toUInt8, (w >>> 24).toUInt8]

/-- `LX_SUCCESS` or `LX_ERROR`, and what has been read. -/
structure Answer where
  success : Bool
  data : List UInt8 := []
deriving DecidableEq, Repr

def norDriverRead (q : Qspi) (flash : Flash) (address words : Nat) : Answer :=
  match q.read 0 flash (byteOffset q address) (byteCount q words) with
  | some data => ⟨true, data⟩
  | none => ⟨false, []⟩

def norDriverWrite (q : Qspi) (flash : Flash) (address : Nat) (source : List UInt32) : Answer × Flash :=
  let written := q.write flash (byteOffset q address)
    ((source.flatMap wordBytes).take (byteCount q source.length))
  (⟨written.1, []⟩, written.2)

def norDriverErase (q : Qspi) (flash : Flash) (block : Nat) : Answer × Flash :=
  if block < flashBlocks then
    let result := q.erase flash (block * eraseBlockBytes)
    (⟨result.1, []⟩, result.2)
  else (⟨false, []⟩, flash)

/-- The loop of `nor_driver_verify`, from its `index`th round on. -/
def verifyFrom (q : Qspi) (flash : Flash) (block : Nat) : (remaining index : Nat) → Bool
  | 0, _ => true
  | n + 1, index =>
    match q.read index flash (block * eraseBlockBytes + index * transferBytes) transferBytes with
    | some data => data.all (· = 0xFF) && verifyFrom q flash block n (index + 1)
    | none => false

def norDriverVerify (q : Qspi) (flash : Flash) (block : Nat) : Answer :=
  if block ≥ flashBlocks then ⟨false, []⟩
  else ⟨verifyFrom q flash block (eraseBlockBytes / transferBytes) 0, []⟩

inductive Call
  | read (address words : Nat)
  | write (address : Nat) (source : List UInt32)
  | erase (block : Nat)
  | verify (block : Nat)
deriving DecidableEq, Repr

def exec (q : Qspi) (flash : Flash) : Call → Answer × Flash
  | .read address words => (norDriverRead q flash address words, flash)
  | .write address source => norDriverWrite q flash address source
  | .erase block => norDriverErase q flash block
  | .verify block => (norDriverVerify q flash block, flash)

structure HardwareOutcome where
  read : Nat → Bool := fun _ => true
  pages : Nat → PageStatus := fun _ => .done
  erase : EraseStatus := .done

def stm32 (o : HardwareOutcome) : Qspi where
  width := 32
  read n := qspiReadStm32 (o.read n)
  write := qspiWriteStm32 o.pages
  erase := qspiEraseStm32 o.erase

structure FileOutcome where
  read : Nat → Bool := fun _ => true
  chunks : Nat → ChunkStatus := fun _ => .done
  erase : FileStatus := .done

def linux (o : FileOutcome) : Qspi where
  width := 64
  read n := qspiReadLinux (o.read n)
  write := qspiWriteLinux o.chunks
  erase := qspiEraseLinux o.erase

/-- The bytes that the address stands for, if they are in the flash. -/
def InFlash (address bytes : Nat) : Prop :=
  levelxBaseAddress ≤ address ∧ address - levelxBaseAddress + bytes ≤ flashBytes

instance (address bytes : Nat) : Decidable (InFlash address bytes) := inferInstanceAs (Decidable (_ ∧ _))

/-- What a NOR flash does: writes clear bits, and blocks are erased as a whole. -/
def norStep (flash : Flash) : Call → Answer × Flash
  | .read address words =>
    if InFlash address (4 * words) then
      (⟨true, fileRead flash (address - levelxBaseAddress) (4 * words)⟩, flash)
    else (⟨false, []⟩, flash)
  | .write address source =>
    if InFlash address (4 * source.length) then
      (⟨true, []⟩, programmed flash (address - levelxBaseAddress) (source.flatMap wordBytes))
    else (⟨false, []⟩, flash)
  | .erase block =>
    if block < flashBlocks then (⟨true, []⟩, erased flash (block * eraseBlockBytes))
    else (⟨false, []⟩, flash)
  | .verify block =>
    (⟨decide (block < flashBlocks ∧
      ∀ i < eraseBlockBytes, flash (block * eraseBlockBytes + i) = 0xFF), []⟩, flash)

/-- Pointers and word counts of 32 bits whose bytes can be counted; a read of no words outside the
flash would succeed on the hardware alone. -/
def Fits : Call → Prop
  | .read address words => address < 2 ^ 32 ∧ 0 < words ∧ words < 2 ^ 30
  | .write address source => address < 2 ^ 32 ∧ source.length < 2 ^ 30
  | .erase _ | .verify _ => True

instance : DecidablePred Fits
  | .read _ _ => inferInstanceAs (Decidable (_ ∧ _ ∧ _))
  | .write _ _ => inferInstanceAs (Decidable (_ ∧ _))
  | .erase _ | .verify _ => inferInstanceAs (Decidable True)

/-- The write sets no bit that is cleared. -/
def Clears (flash : Flash) : Call → Prop
  | .write address source => InFlash address (4 * source.length) →
    ∀ i b, (source.flatMap wordBytes)[i]? = some b → flash (address - levelxBaseAddress + i) &&& b = b
  | _ => True

section
variable {q : Qspi} {address words : Nat}

theorem byteOffset_eq (hq : q.width = 32 ∨ q.width = 64) (h : address < 2 ^ 32) :
    if levelxBaseAddress ≤ address then byteOffset q address = address - levelxBaseAddress
    else flashBytes < byteOffset q address := by
  have hflash : flashBytes = 2 ^ 24 := rfl
  unfold byteOffset levelxBaseAddress
  rw [hflash]
  rcases hq with hq | hq <;> rw [hq] <;> split <;> omega

theorem byteCount_eq (hq : q.width = 32 ∨ q.width = 64) (h : words < 2 ^ 30) :
    byteCount q words = 4 * words := by
  unfold byteCount
  rcases hq with hq | hq <;> rw [hq] <;> omega

theorem inFlash_iff (hq : q.width = 32 ∨ q.width = 64) (h : address < 2 ^ 32) (bytes : Nat) :
    InFlash address bytes ↔
      ¬ (byteOffset q address > flashBytes ∨ bytes > flashBytes - byteOffset q address) := by
  have hoffset := byteOffset_eq hq h
  unfold InFlash
  split at hoffset <;> omega

theorem byteOffset_inFlash (hq : q.width = 32 ∨ q.width = 64) (h : address < 2 ^ 32) {bytes : Nat}
    (hin : InFlash address bytes) : byteOffset q address = address - levelxBaseAddress := by
  have hoffset := byteOffset_eq hq h
  rwa [if_pos hin.1] at hoffset

end

theorem flatMap_wordBytes_length (source : List UInt32) :
    (source.flatMap wordBytes).length = 4 * source.length := by
  induction source with
  | nil => rfl
  | cons w source ih =>
    rw [List.flatMap_cons, List.length_append, ih, List.length_cons]
    simp [wordBytes]
    omega

section
variable {flash : Flash} {offset : Nat}

theorem qspiOverwrite_accepts {status : Nat → ChunkStatus} (hdone : ∀ n, status n = .done) (chunk : Nat)
    {input : List UInt8} (hclears : ∀ i b, input[i]? = some b → flash (offset + i) &&& b = b) :
    qspiOverwrite status chunk flash offset input = (true, programmed flash offset input) := by
  suffices h : ∃ image, qspiOverwrite status chunk flash offset input = (true, image) by
    obtain ⟨image, himage⟩ := h
    rw [himage, qspiOverwrite_eq himage]
  fun_induction qspiOverwrite status chunk flash offset input with
  | case1 => exact ⟨_, rfl⟩
  | case2 chunk _ _ _ _ hstatus | case3 chunk _ _ _ _ _ _ hstatus | case4 chunk _ _ _ _ _ _ hstatus =>
    rw [hdone chunk] at hstatus
    cases hstatus
  | case5 chunk flash offset input hinput count hstatus hcheck ih =>
    refine ih fun i b hb => ?_
    rw [List.getElem?_drop] at hb
    have hold := hclears (count + i) b hb
    rw [fileWrite_eq hcheck, programmed_outside, Nat.add_assoc]
    · exact hold
    · rw [List.length_take]
      omega
  | case6 chunk flash offset input hinput count hstatus hcheck =>
    refine absurd (List.all_eq_true.mpr ?_) hcheck
    rintro ⟨current, b⟩ hx
    obtain ⟨i, hi⟩ := List.getElem?_of_mem hx
    obtain ⟨hcurrent, hb⟩ := List.getElem?_zip_eq_some.mp hi
    rw [fileRead, List.getElem?_map, Option.map_eq_some_iff] at hcurrent
    obtain ⟨k, hk, rfl⟩ := hcurrent
    obtain ⟨hlt, hk⟩ := List.getElem?_eq_some_iff.mp hk
    rw [List.getElem_range] at hk
    rw [← hk]
    exact decide_eq_true (hclears i b hb)

end

/-- The platform reads and erases like a flash, and rejects what is outside. -/
structure Faithful (q : Qspi) : Prop where
  width : q.width = 32 ∨ q.width = 64
  read : ∀ n flash offset bytes, 0 < bytes → q.read n flash offset bytes =
    if offset > flashBytes ∨ bytes > flashBytes - offset then none else some (fileRead flash offset bytes)
  outside : ∀ flash offset source, offset > flashBytes ∨ source.length > flashBytes - offset →
    q.write flash offset source = (false, flash)
  erase : ∀ flash offset, offset < flashBytes → offset % eraseBlockBytes = 0 →
    q.erase flash offset = (true, erased flash offset)

theorem faithful_stm32 : Faithful (stm32 {}) where
  width := Or.inl rfl
  read := fun n flash offset bytes hbytes => by
    have hne : bytes ≠ 0 := by omega
    simp [stm32, qspiReadStm32, hne]
  outside := fun flash offset source h => if_pos h
  erase := fun flash offset hlt hmod => by
    simp [stm32, qspiEraseStm32, hlt, hmod]

theorem fileWrite_erased (flash : Flash) (offset : Nat) :
    fileWrite flash offset (List.replicate eraseBlockBytes 0xFF) = erased flash offset := by
  funext a
  unfold fileWrite erased
  by_cases h : offset ≤ a
  · rw [if_pos h, List.getD_eq_getElem?_getD, List.getElem?_replicate]
    by_cases hlt : a < offset + eraseBlockBytes
    · rw [if_pos (Nat.sub_lt_left_of_lt_add h hlt), Option.getD_some, if_pos ⟨h, hlt⟩]
    · rw [if_neg fun hsub => hlt (Nat.sub_lt_iff_lt_add' h |>.mp hsub), Option.getD_none, if_neg fun hin => hlt hin.2]
  · rw [if_neg h, if_neg fun hin => h hin.1]

theorem faithful_linux : Faithful (linux {}) where
  width := Or.inr rfl
  read := fun n flash offset bytes _ => by
    by_cases h : offset ≤ flashBytes ∧ bytes ≤ flashBytes - offset
    · rw [if_neg (by omega)]
      simp only [linux, qspiReadLinux, if_pos h, if_true]
    · rw [if_pos (by omega)]
      simp only [linux, qspiReadLinux, if_neg h]
  outside := fun flash offset source h => if_pos h
  erase := fun flash offset hlt hmod => by
    simp [linux, qspiEraseLinux, hlt, hmod, fileWrite_erased]

section
variable {q : Qspi} {flash : Flash}

theorem verifyFrom_iff (hq : Faithful q) {block : Nat} (hblock : block < 4096) {n index : Nat}
    (hn : 512 * (index + n) ≤ 4096) : verifyFrom q flash block n index = true ↔
      ∀ i, 512 * index ≤ i → i < 512 * (index + n) → flash (block * 4096 + i) = 0xFF := by
  induction n generalizing index with
  | zero =>
    refine iff_of_true rfl fun i hle hlt => ?_
    omega
  | succ n ih =>
    have hread : q.read index flash (block * 4096 + index * 512) 512 =
        some (fileRead flash (block * 4096 + 512 * index) 512) := by
      have hflash : flashBytes = 16777216 := rfl
      rw [Nat.mul_comm index, hq.read _ _ _ _ (by decide), if_neg]
      omega
    have hrest := ih (by omega : 512 * (index + 1 + n) ≤ 4096)
    have hall : (fileRead flash (block * 4096 + 512 * index) 512).all (· = 0xFF) = true ↔
        ∀ i, i < 512 → flash (block * 4096 + 512 * index + i) = 0xFF := by
      simp only [fileRead, List.all_map, List.all_eq_true, List.mem_range, Function.comp_apply,
        decide_eq_true_eq]
    unfold verifyFrom
    rw [hread]
    simp only [Bool.and_eq_true, hall, hrest]
    refine ⟨fun h i hle hlt => ?_, fun h => ⟨fun i hi => ?_, fun i hle hlt => h i (by omega) (by omega)⟩⟩
    · by_cases hi : i < 512 * (index + 1)
      · have hbyte := h.1 (i - 512 * index) (by omega)
        rwa [show block * 4096 + 512 * index + (i - 512 * index) = block * 4096 + i by omega] at hbyte
      · exact h.2 i (by omega) (by omega)
    · have hbyte := h (512 * index + i) (by omega) (by omega)
      rwa [← Nat.add_assoc] at hbyte

theorem exec_eq (hq : Faithful q) {c : Call} (hfits : Fits c)
    (hwrite : ∀ address source, c = .write address source → InFlash address (4 * source.length) →
      q.write flash (address - levelxBaseAddress) (source.flatMap wordBytes) =
        (true, programmed flash (address - levelxBaseAddress) (source.flatMap wordBytes))) :
    exec q flash c = norStep flash c := by
  cases c with
  | read address words =>
    obtain ⟨haddress, hpos, hwords⟩ := hfits
    simp only [exec, norDriverRead, norStep, byteCount_eq hq.width hwords]
    rw [hq.read _ _ _ _ (by omega)]
    by_cases hin : InFlash address (4 * words)
    · rw [if_neg ((inFlash_iff hq.width haddress _).mp hin), if_pos hin,
        byteOffset_inFlash hq.width haddress hin]
    · rw [if_pos (not_not.mp ((inFlash_iff hq.width haddress _).not.mp hin)), if_neg hin]
  | write address source =>
    obtain ⟨haddress, hwords⟩ := hfits
    have hlength := flatMap_wordBytes_length source
    simp only [exec, norDriverWrite, norStep, byteCount_eq hq.width hwords]
    rw [List.take_of_length_le (Nat.le_of_eq hlength)]
    by_cases hin : InFlash address (4 * source.length)
    · rw [if_pos hin, byteOffset_inFlash hq.width haddress hin, hwrite address source rfl hin]
    · have hout := not_not.mp ((inFlash_iff hq.width haddress _).not.mp hin)
      rw [← hlength] at hout
      rw [if_neg hin, hq.outside _ _ _ hout]
  | erase block =>
    simp only [exec, norDriverErase, norStep]
    split
    · rename_i hblock
      have hlt : block * 4096 < 16777216 := by
        have hblock : block < 4096 := hblock
        omega
      rw [hq.erase _ _ hlt (Nat.mul_mod_left ..)]
    · rfl
  | verify block =>
    simp only [exec, norDriverVerify, norStep]
    by_cases hblock : block < flashBlocks
    · rw [if_neg (Nat.not_le.mpr hblock)]
      refine Prod.ext (congrArg (Answer.mk · []) ?_) rfl
      rw [Bool.eq_iff_iff, verifyFrom_iff hq hblock (by decide), decide_eq_true_eq]
      exact ⟨fun h => ⟨hblock, fun i hi => h i (by omega) hi⟩, fun h i _ hi => h.2 i hi⟩
    · rw [if_pos (Nat.not_lt.mp hblock), decide_eq_false fun h => hblock h.1]

theorem exec_stm32 {c : Call} (hfits : Fits c) : exec (stm32 {}) flash c = norStep flash c := by
  refine exec_eq faithful_stm32 hfits fun address source hc hin => ?_
  have hlength := flatMap_wordBytes_length source
  have hrange := hin.2
  simp only [stm32, qspiWriteStm32]
  rw [if_neg (by omega), qspiProgram_eq fun _ => rfl]

theorem exec_linux {c : Call} (hfits : Fits c) (hclears : Clears flash c) :
    exec (linux {}) flash c = norStep flash c := by
  refine exec_eq faithful_linux hfits fun address source hc hin => ?_
  subst hc
  have hlength := flatMap_wordBytes_length source
  have hrange := hin.2
  simp only [linux, qspiWriteLinux]
  rw [if_neg (by omega), qspiOverwrite_accepts (fun _ => rfl) 0 (hclears hin)]

end

/-- The image after the calls, and the answers. -/
def perform (f : Flash → Call → Answer × Flash) (flash : Flash) (calls : List Call) : Flash × List Answer :=
  (Runs.run (fun flash c => (f flash c).2) flash calls,
    Runs.outputs (fun flash c => (f flash c).2) (fun flash c => (f flash c).1) flash calls)

theorem perform_congr {f g : Flash → Call → Answer × Flash} {P : Flash → Call → Prop} {calls : List Call}
    {flash : Flash} (h : ∀ flash, ∀ c ∈ calls, P flash c → f flash c = g flash c)
    (halong : Runs.Along (fun flash c => (g flash c).2) P flash calls) :
    perform f flash calls = perform g flash calls := by
  induction calls generalizing flash with
  | nil => rfl
  | cons c calls ih =>
    have hfirst := h flash c List.mem_cons_self halong.1
    have hrest := ih (fun flash c hc => h flash c (List.mem_cons_of_mem _ hc)) halong.2
    simp only [perform, Runs.run_cons, Runs.outputs, hfirst] at hrest ⊢
    rw [Prod.mk.injEq] at hrest
    rw [hrest.1, hrest.2]

theorem nor_driver_agrees {calls : List Call} (hfits : ∀ c ∈ calls, Fits c) (flash : Flash) :
    perform (exec (stm32 {})) flash calls = perform norStep flash calls ∧
      (Runs.Along (fun flash c => (norStep flash c).2) Clears flash calls →
        perform (exec (linux {})) flash calls = perform norStep flash calls) := by
  have hall : ∀ (flash : Flash) (calls : List Call),
      Runs.Along (fun flash c => (norStep flash c).2) (fun _ _ => True) flash calls := by
    intro flash calls
    induction calls generalizing flash with
    | nil => trivial
    | cons c calls ih => exact ⟨trivial, ih _⟩
  refine ⟨perform_congr (fun flash c hc _ => exec_stm32 (hfits c hc)) (hall flash calls), ?_⟩
  exact perform_congr fun flash c hc hclears => exec_linux (hfits c hc) hclears

/-- A block is erased, a word across a page is written, and the block is verified and read. -/
def eraseAndWrite : List Call :=
  [.erase 1, .verify 1, .write 0x900010FE [0xFFFFFF0F], .verify 1, .read 0x900010FC 2]

theorem nor_driver_agrees_written : (perform (exec (stm32 {})) (fun _ => 0) eraseAndWrite).2 =
      [⟨true, []⟩, ⟨true, []⟩, ⟨true, []⟩, ⟨false, []⟩, ⟨true, [0xFF, 0xFF, 0x0F, 0xFF, 0xFF, 0xFF, 0xFF, 0xFF]⟩] ∧
    perform (exec (stm32 {})) (fun _ => 0) eraseAndWrite = perform norStep (fun _ => 0) eraseAndWrite :=
  ⟨by decide +kernel, (nor_driver_agrees (by decide) _).1⟩

/-- A write that fails has cleared bits of the range only, and one that succeeds the source's. -/
def Begun (flash : Flash) (offset : Nat) (source : List UInt8) (result : Bool × Flash) : Prop :=
  ∃ written, result.2 = programmed flash offset written ∧ written.length ≤ source.length ∧
    (result.1 = true → written = source)

section
variable {flash : Flash} {offset : Nat} {input : List UInt8}

theorem begun_failed {written : List UInt8} {left : Flash} (hleft : left = programmed flash offset written)
    (hlength : written.length ≤ input.length) : Begun flash offset input (false, left) := by
  refine ⟨written, hleft, hlength, fun hsuccess => ?_⟩
  cases hsuccess

theorem begun_nothing (flash : Flash) (offset : Nat) (input : List UInt8) :
    Begun flash offset input (false, flash) :=
  begun_failed (programmed_nil flash offset).symm (Nat.zero_le _)

theorem Begun.after {count : Nat} (hcount : count ≤ input.length) {result : Bool × Flash}
    (h : Begun (programmed flash offset (input.take count)) (offset + count) (input.drop count) result) :
    Begun flash offset input result := by
  obtain ⟨written, hresult, hshort, htrue⟩ := h
  have hlength : (input.take count).length = count := List.length_take_of_le hcount
  have happend := programmed_append flash offset (input.take count) written
  rw [hlength] at happend
  refine ⟨input.take count ++ written, hresult.trans happend, ?_, fun hsuccess => ?_⟩
  · rw [List.length_drop] at hshort
    rw [List.length_append, hlength]
    omega
  · rw [htrue hsuccess, List.take_append_drop]

theorem qspiProgram_begun (status : Nat → PageStatus) (page : Nat) (flash : Flash) (offset : Nat)
    (input : List UInt8) : Begun flash offset input (qspiProgram status page flash offset input) := by
  have hand : ∀ offset, offset &&& 0xFF = offset % 2 ^ 8 := fun offset =>
    Nat.and_two_pow_sub_one_eq_mod offset 8
  have hpage : ∀ (flash : Flash) (offset : Nat) (bytes : List UInt8),
      bytes.length ≤ 256 - (offset &&& 0xFF) →
      pageProgram flash offset bytes = programmed flash offset bytes := by
    intro flash offset bytes hbytes
    have hoffset := hand offset
    refine pageProgram_eq ?_
    omega
  fun_induction qspiProgram status page flash offset input with
  | case1 page flash offset => exact ⟨[], (programmed_nil flash offset).symm, Nat.le_refl _, fun _ => rfl⟩
  | case2 page flash offset input => exact begun_nothing flash offset input
  | case3 page flash offset input _ pageBytes programmed =>
    refine begun_failed (hpage flash offset _ ?_) (List.length_take_le' ..)
    rw [List.length_take]
    omega
  | case4 page flash offset input _ pageBytes kept =>
    refine begun_failed (hpage flash offset _ ?_) ?_
    · rw [partly, List.length_mapIdx, List.length_take]
      omega
    · rw [partly, List.length_mapIdx]
      exact List.length_take_le' ..
  | case5 page flash offset input _ pageBytes _ ih =>
    have htake : (input.take pageBytes).length ≤ 256 - (offset &&& 0xFF) := by
      rw [List.length_take]
      omega
    rw [hpage flash offset _ htake] at ih ⊢
    exact ih.after (Nat.min_le_left ..)

theorem check_shorter {count k : Nat} (hk : k ≤ count)
    (hcheck : ((List.zip (fileRead flash offset count) input).all fun (current, b) =>
      current &&& b = b) = true) :
    ((List.zip (fileRead flash offset k) input).all fun (current, b) => current &&& b = b) = true := by
  have htake : fileRead flash offset k = (fileRead flash offset count).take k := by
    rw [fileRead, fileRead, ← List.map_take, List.take_range, Nat.min_eq_left hk]
  refine List.all_eq_true.mpr fun x hx => List.all_eq_true.mp hcheck x ?_
  obtain ⟨i, hi⟩ := List.getElem?_of_mem hx
  obtain ⟨hcurrent, hb⟩ := List.getElem?_zip_eq_some.mp hi
  rw [htake, List.getElem?_take] at hcurrent
  split at hcurrent
  · exact List.mem_of_getElem? (List.getElem?_zip_eq_some.mpr ⟨hcurrent, hb⟩)
  · cases hcurrent

theorem qspiOverwrite_begun (status : Nat → ChunkStatus) (chunk : Nat) (flash : Flash) (offset : Nat)
    (input : List UInt8) : Begun flash offset input (qspiOverwrite status chunk flash offset input) := by
  fun_induction qspiOverwrite status chunk flash offset input with
  | case1 chunk flash offset => exact ⟨[], (programmed_nil flash offset).symm, Nat.le_refl _, fun _ => rfl⟩
  | case2 chunk flash offset input | case4 chunk flash offset input | case6 chunk flash offset input =>
    exact begun_nothing flash offset input
  | case3 chunk flash offset input _ count written _ hcheck =>
    exact begun_failed (fileWrite_eq (check_shorter (Nat.min_le_right ..) hcheck)) (List.length_take_le' ..)
  | case5 chunk flash offset input _ count _ hcheck ih =>
    rw [fileWrite_eq hcheck] at ih ⊢
    exact ih.after (Nat.min_le_left ..)

end

/-- What the two platforms have in common, however their commands and file accesses end. -/
structure Platform (q : Qspi) : Prop where
  width : q.width = 32 ∨ q.width = 64
  read : ∀ n flash offset bytes data, 0 < bytes → q.read n flash offset bytes = some data →
    ¬ (offset > flashBytes ∨ bytes > flashBytes - offset) ∧ data = fileRead flash offset bytes
  outside : ∀ flash offset source, offset > flashBytes ∨ source.length > flashBytes - offset →
    q.write flash offset source = (false, flash)
  write : ∀ flash offset source, Begun flash offset source (q.write flash offset source)
  erase : ∀ flash offset, (q.erase flash offset).1 = true → (q.erase flash offset).2 = erased flash offset
  block : ∀ flash offset a, a < offset ∨ offset + eraseBlockBytes ≤ a → (q.erase flash offset).2 a = flash a

theorem platform_stm32 (o : HardwareOutcome) : Platform (stm32 o) where
  width := Or.inl rfl
  read := fun n flash offset bytes data hbytes h => by
    have hne : bytes ≠ 0 := by omega
    simp only [stm32, qspiReadStm32, hne, or_false, if_false] at h
    split at h
    · cases h
    · rename_i hin
      split at h <;> cases h
      exact ⟨hin, rfl⟩
  outside := fun flash offset source h => if_pos h
  write := fun flash offset source => by
    simp only [stm32, qspiWriteStm32]
    split
    · exact begun_nothing flash offset source
    · exact qspiProgram_begun o.pages 0 flash offset source
  erase := fun flash offset h => by
    simp only [stm32, qspiEraseStm32] at h ⊢
    split at h
    · rename_i hin
      rw [if_pos hin]
      split at h
      · rfl
      · cases h
      · cases h
    · cases h
  block := fun flash offset a ha => by
    simp only [stm32, qspiEraseStm32]
    split
    · split
      · exact if_neg (by omega)
      · rfl
      · exact if_neg (by omega)
    · rfl

theorem platform_linux (o : FileOutcome) : Platform (linux o) where
  width := Or.inr rfl
  read := fun n flash offset bytes data _ h => by
    simp only [linux, qspiReadLinux] at h
    split at h
    · rename_i hin
      split at h <;> cases h
      exact ⟨by omega, rfl⟩
    · cases h
  outside := fun flash offset source h => if_pos h
  write := fun flash offset source => by
    simp only [linux, qspiWriteLinux]
    split
    · exact begun_nothing flash offset source
    · exact qspiOverwrite_begun o.chunks 0 flash offset source
  erase := fun flash offset h => by
    simp only [linux, qspiEraseLinux] at h ⊢
    split at h
    · rename_i hin
      rw [if_pos hin]
      split at h
      · exact fileWrite_erased flash offset
      · cases h
    · cases h
  block := fun flash offset a ha => by
    have hfile : ∀ bytes : List UInt8, bytes.length ≤ eraseBlockBytes →
        fileWrite flash offset bytes a = flash a := by
      intro bytes hbytes
      unfold fileWrite
      split
      · rw [List.getD_eq_getElem?_getD, List.getElem?_eq_none (by omega), Option.getD_none]
      · rfl
    simp only [linux, qspiEraseLinux]
    split
    · split
      · exact hfile _ (Nat.le_of_eq (List.length_replicate ..))
      · refine hfile _ ?_
        rw [List.length_take, List.length_replicate]
        exact Nat.min_le_right ..
    · rfl

section
variable {q : Qspi} {flash : Flash}

theorem verifyFrom_true (hq : Platform q) {block : Nat} {n index : Nat}
    (h : verifyFrom q flash block n index = true) {i : Nat} (hle : 512 * index ≤ i)
    (hlt : i < 512 * (index + n)) : flash (block * 4096 + i) = 0xFF := by
  induction n generalizing index with
  | zero => omega
  | succ n ih =>
    unfold verifyFrom at h
    split at h
    · rename_i data hread
      rw [Bool.and_eq_true, (hq.read _ _ _ _ _ (by decide) hread).2] at h
      obtain ⟨hall, hrest⟩ := h
      rw [Nat.mul_add] at hlt
      by_cases hi : i < 512 * index + 512
      · have hoffset : i - 512 * index < 512 := by omega
        have hbyte := List.all_eq_true.mp hall (flash (block * 4096 + index * 512 + (i - 512 * index)))
          (List.mem_map_of_mem (List.mem_range.mpr hoffset))
        rw [Nat.mul_comm index 512, Nat.add_assoc, Nat.add_sub_cancel' hle] at hbyte
        exact of_decide_eq_true hbyte
      · have hle : 512 * (index + 1) ≤ i := Nat.not_lt.mp hi
        have hlt : i < 512 * (index + 1 + n) := by rw [Nat.mul_add, Nat.mul_add]; omega
        exact ih hrest hle hlt
    · cases h

theorem exec_success (hq : Platform q) {c : Call} (hfits : Fits c) (h : (exec q flash c).1.success = true) :
    exec q flash c = norStep flash c := by
  cases c with
  | read address words =>
    obtain ⟨haddress, hpos, hwords⟩ := hfits
    simp only [exec, norDriverRead, norStep, byteCount_eq hq.width hwords] at h ⊢
    split at h
    · rename_i data hread
      obtain ⟨hin, rfl⟩ := hq.read _ _ _ _ _ (by omega) hread
      have hin := (inFlash_iff hq.width haddress _).mpr hin
      rw [if_pos hin, byteOffset_inFlash hq.width haddress hin]
    · cases h
  | write address source =>
    obtain ⟨haddress, hwords⟩ := hfits
    have hlength := flatMap_wordBytes_length source
    simp only [exec, norDriverWrite, norStep, byteCount_eq hq.width hwords] at h ⊢
    rw [List.take_of_length_le (Nat.le_of_eq hlength)] at h ⊢
    by_cases hin : InFlash address (4 * source.length)
    · rw [byteOffset_inFlash hq.width haddress hin] at h ⊢
      obtain ⟨written, hresult, -, htrue⟩ := hq.write flash (address - levelxBaseAddress) (source.flatMap wordBytes)
      rw [htrue h] at hresult
      rw [if_pos hin, h, hresult]
    · have hout := not_not.mp ((inFlash_iff hq.width haddress _).not.mp hin)
      rw [← hlength] at hout
      rw [hq.outside _ _ _ hout] at h
      cases h
  | erase block =>
    simp only [exec, norDriverErase, norStep] at h ⊢
    split at h
    · rename_i hblock
      rw [if_pos hblock, if_pos hblock, hq.erase _ _ h, show (q.erase flash (block * eraseBlockBytes)).1 = true from h]
    · cases h
  | verify block =>
    simp only [exec, norDriverVerify, norStep] at h ⊢
    split at h
    · cases h
    · rename_i hblock
      have hlt : block < flashBlocks := Nat.not_le.mp hblock
      rw [if_neg hblock]
      refine Prod.ext (congrArg (Answer.mk · []) (h.trans (decide_eq_true ⟨hlt, fun i hi => ?_⟩).symm)) rfl
      exact verifyFrom_true hq h (by omega) hi

/-- The words of the write lie over the byte. -/
def Covers (a : Nat) : Call → Prop
  | .write address source => InFlash address (4 * source.length) ∧ address - levelxBaseAddress ≤ a ∧
    a < address - levelxBaseAddress + 4 * source.length
  | _ => False

theorem and_programmed (flash : Flash) (offset : Nat) (source : List UInt8) (a : Nat) :
    programmed flash offset source a = flash a &&& programmed flash offset source a := by
  unfold programmed
  split
  · split
    · rw [← UInt8.and_assoc, UInt8.and_self]
    · exact (UInt8.and_self ..).symm
  · exact (UInt8.and_self ..).symm

/-- However a call ends, only an erase of its block sets bits of a byte, and only a write over it
clears them. -/
theorem exec_byte (hq : Platform q) {c : Call} (hfits : Fits c) {a : Nat}
    (herase : c ≠ .erase (a / eraseBlockBytes)) :
    (exec q flash c).2 a = flash a &&& (exec q flash c).2 a ∧
      (¬ Covers a c → (exec q flash c).2 a = flash a) := by
  cases c with
  | read address words => exact ⟨(UInt8.and_self ..).symm, fun _ => rfl⟩
  | verify block => exact ⟨(UInt8.and_self ..).symm, fun _ => rfl⟩
  | erase block =>
    have hsame : (exec q flash (.erase block)).2 a = flash a := by
      simp only [exec, norDriverErase]
      split
      · refine hq.block _ _ _ ?_
        have hne : block ≠ a / eraseBlockBytes := fun heq => herase (by rw [heq])
        simp only [eraseBlockBytes] at hne ⊢
        omega
      · rfl
    rw [hsame]
    exact ⟨(UInt8.and_self ..).symm, fun _ => rfl⟩
  | write address source =>
    obtain ⟨haddress, hwords⟩ := hfits
    have hlength := flatMap_wordBytes_length source
    simp only [exec, norDriverWrite, byteCount_eq hq.width hwords]
    rw [List.take_of_length_le (Nat.le_of_eq hlength)]
    by_cases hin : InFlash address (4 * source.length)
    · rw [byteOffset_inFlash hq.width haddress hin]
      obtain ⟨written, hresult, hshort, -⟩ :=
        hq.write flash (address - levelxBaseAddress) (source.flatMap wordBytes)
      rw [hresult]
      refine ⟨and_programmed .., fun hcovers => programmed_outside ?_⟩
      by_contra hinside
      exact hcovers ⟨hin, by omega, by omega⟩
    · have hout := not_not.mp ((inFlash_iff hq.width haddress _).not.mp hin)
      rw [← hlength] at hout
      rw [hq.outside _ _ _ hout]
      exact ⟨(UInt8.and_self ..).symm, fun _ => rfl⟩

end

/-- The platform of a call, and how its commands or file accesses end. -/
inductive Outcome
  | hardware (o : HardwareOutcome)
  | simulation (o : FileOutcome)

def Outcome.qspi : Outcome → Qspi
  | .hardware o => stm32 o
  | .simulation o => linux o

theorem Outcome.platform : (o : Outcome) → Platform o.qspi
  | .hardware o => platform_stm32 o
  | .simulation o => platform_linux o

/-- The image after calls whose commands and file accesses end in any way. -/
def damaged (flash : Flash) (calls : List (Outcome × Call)) : Flash :=
  Runs.run (fun flash x => (exec x.1.qspi flash x.2).2) flash calls

/-- In every run, whatever fails: a call that answers with success has read, written, erased or
verified as a NOR flash does; and as long as its block is not erased, a byte keeps its cleared bits,
and is the same unless a write was over it. -/
theorem nor_driver_survives {calls : List (Outcome × Call)} (hfits : ∀ x ∈ calls, Fits x.2)
    (flash : Flash) :
    (∀ done x, done ++ [x] <+: calls → (exec x.1.qspi (damaged flash done) x.2).1.success = true →
      exec x.1.qspi (damaged flash done) x.2 = norStep (damaged flash done) x.2) ∧
    ∀ a, (∀ x ∈ calls, x.2 ≠ .erase (a / eraseBlockBytes)) →
      damaged flash calls a = flash a &&& damaged flash calls a ∧
      ((∀ x ∈ calls, ¬ Covers a x.2) → damaged flash calls a = flash a) := by
  refine ⟨fun done x hdone hsuccess => ?_, fun a => ?_⟩
  · have hx := hdone.subset (List.mem_append_right _ List.mem_cons_self)
    exact exec_success x.1.platform (hfits x hx) hsuccess
  · induction calls generalizing flash with
    | nil => exact fun _ => ⟨(UInt8.and_self ..).symm, fun _ => rfl⟩
    | cons x calls ih =>
      intro herase
      have hx := hfits x List.mem_cons_self
      obtain ⟨hand, hsame⟩ := exec_byte x.1.platform hx (herase x List.mem_cons_self)
      obtain ⟨hands, hsames⟩ := ih (fun y hy => hfits y (List.mem_cons_of_mem _ hy))
        (exec x.1.qspi flash x.2).2 fun y hy => herase y (List.mem_cons_of_mem _ hy)
      have hrun : damaged flash (x :: calls) = damaged (exec x.1.qspi flash x.2).2 calls := rfl
      rw [hrun]
      refine ⟨?_, fun hcovers => ?_⟩
      · calc damaged (exec x.1.qspi flash x.2).2 calls a
            = (exec x.1.qspi flash x.2).2 a &&& damaged (exec x.1.qspi flash x.2).2 calls a := hands
          _ = flash a &&& (exec x.1.qspi flash x.2).2 a &&& damaged (exec x.1.qspi flash x.2).2 calls a := by
            rw [← hand]
          _ = flash a &&& damaged (exec x.1.qspi flash x.2).2 calls a := by
            rw [UInt8.and_assoc, ← hands]
      · rw [hsames fun y hy => hcovers y (List.mem_cons_of_mem _ hy), hsame (hcovers x List.mem_cons_self)]

/-- A write over two pages is cut off in the second, and the erase that follows is refused. -/
def cutOff : List (Outcome × Call) :=
  [(.hardware { pages := fun n => if n = 0 then .done else .transmitFailed 1 }, .write 0x900010FE [0x0F0F0F0F]),
    (.hardware { erase := .commandFailed }, .erase 1)]

theorem nor_driver_survives_cutOff :
    damaged (fun _ => 0xFF) cutOff 0x1100 = 0x0F ∧ damaged (fun _ => 0xFF) cutOff 0x1101 = 0xFF ∧
      ∀ a, a / 4096 ≠ 1 → damaged (fun _ => 0xFF) cutOff a = 0xFF &&& damaged (fun _ => 0xFF) cutOff a := by
  refine ⟨by decide +kernel, by decide +kernel, fun a ha => ?_⟩
  have hfits : ∀ x ∈ cutOff, Fits x.2 := by decide
  refine ((nor_driver_survives hfits _).2 a fun x hx herase => ?_).1
  rcases List.mem_cons.mp hx with rfl | hx
  · cases herase
  · cases List.mem_singleton.mp hx
    exact ha (Call.erase.inj herase).symm

end SimPLCity.NorDriver
