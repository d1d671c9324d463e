import Mathlib.Data.BitVec
import SimPLCity.WordArithmetic
import SimPLCity.FileNamespace
import SimPLCity.HandleSteps

/-! The arithmetic of `_lseek` on machine words: a signed offset of any width is split into its
sign and its magnitude, and combined with an unsigned base. -/

namespace SimPLCity.SeekArithmetic
open WordArithmetic FileDescriptors FileNamespace FileXVolume PathText HandleSteps

instance {w : Nat} : MachineInteger (BitVec w) := ⟨BitVec.toInt⟩

@[simp] theorem toInt_bitVec {w : Nat} (x : BitVec w) : toInt x = x.toInt := rfl

section
variable {w : Nat}

/-- `std::numeric_limits<off_t>::max()` -/
def maximumOffset (w : Nat) : UInt64 := UInt64.ofNat (2 ^ (w - 1) - 1)

/-- `static_cast<std::uint64_t>` of an `off_t` -/
def toUnsigned (offset : BitVec w) : UInt64 := UInt64.ofBitVec (offset.signExtend 64)

/-- `static_cast<std::int64_t>` of an `off_t` -/
def toSigned (offset : BitVec w) : Int64 := Int64.ofBitVec (offset.signExtend 64)

/-- `static_cast<off_t>` -/
def toOffset (w : Nat) (target : UInt64) : BitVec w := target.toBitVec.setWidth w

/-- The new position and the value that is returned. -/
def targetOf (base : UInt64) (offset : BitVec w) :
    Accounted (Except Errno (UInt64 × BitVec w)) :=
  if base > maximumOffset w then pure (.error .eoverflow)
  else if 0 ≤ offset.toInt then do
    let positiveOffset ← convert toUnsigned offset
    let room ← sub (maximumOffset w) base
    if positiveOffset > room then pure (.error .eoverflow)
    else do
      let target ← add base positiveOffset
      let result ← convert (toOffset w) target
      pure (.ok (target, result))
  else do
    let offsetValue ← convert toSigned offset
    let successor ← add offsetValue 1
    let opposite ← neg successor
    let unsigned ← convert Int64.toUInt64 opposite
    let magnitude ← add unsigned 1
    if magnitude > base then pure (.error .einval)
    else do
      let target ← sub base magnitude
      let result ← convert (toOffset w) target
      pure (.ok (target, result))

theorem maximumOffset_toNat (hw : w ≤ 64) : (maximumOffset w).toNat = 2 ^ (w - 1) - 1 := by
  have hpow : 2 ^ (w - 1) ≤ 2 ^ 63 := Nat.pow_le_pow_right (by omega) (by omega)
  rw [maximumOffset, UInt64.toNat_ofNat', Nat.mod_eq_of_lt (by omega)]

theorem toSigned_toInt (hw : w ≤ 64) (offset : BitVec w) :
    (toSigned offset).toInt = offset.toInt := BitVec.toInt_signExtend_of_le hw

theorem toUnsigned_toNat (hw : w ≤ 64) {offset : BitVec w} (h : 0 ≤ offset.toInt) :
    ((toUnsigned offset).toNat : Int) = offset.toInt := by
  have hsigned := toSigned_toInt hw offset
  have hnonneg : (0 : Int64) ≤ toSigned offset := by
    rw [Int64.le_iff_toInt_le, hsigned]
    exact h
  rw [← hsigned, ← toNat_toUInt64 hnonneg]
  rfl

theorem toOffset_toInt (hw : 1 ≤ w) {target : UInt64} (h : target.toNat ≤ 2 ^ (w - 1) - 1) :
    (toOffset w target).toInt = target.toNat := by
  have hpow : 2 ^ w = 2 * 2 ^ (w - 1) := by
    rw [← Nat.pow_succ', Nat.succ_eq_add_one, Nat.sub_add_cancel hw]
  have hpos : 0 < 2 ^ (w - 1) := Nat.two_pow_pos _
  have hsame : (toOffset w target).toNat = target.toNat := by
    rw [toOffset, BitVec.toNat_setWidth, Nat.mod_eq_of_lt (by rw [UInt64.toNat_toBitVec]; omega)]
    rfl
  rw [BitVec.toInt_eq_toNat_of_lt (by omega), hsame]

/-- The words stand for the same position. -/
inductive Represents : Except Errno (UInt64 × BitVec w) → Except Errno Nat → Prop
  | error (e : Errno) : Represents (.error e) (.error e)
  | ok {target : UInt64} {result : BitVec w} {n : Nat} (htarget : target.toNat = n)
      (hresult : result.toInt = n) : Represents (.ok (target, result)) (.ok n)

theorem store_yields (hw : 1 ≤ w) {target : UInt64} {n : Nat} (htarget : target.toNat = n)
    (h : n ≤ 2 ^ (w - 1) - 1) :
    Yields (do
      let result ← convert (toOffset w) target
      pure (.ok (target, result))) fun words => Represents words (.ok n) := by
  subst htarget
  exact .bind (.convert (toOffset_toInt hw h)) fun result hresult =>
    .pure (.ok rfl hresult)

/-- `-(offset + 1)` plus one is the magnitude, also of the most negative offset. -/
theorem magnitude_yields (hw : w ≤ 64) {offset : BitVec w} (h : offset.toInt < 0)
    {β : Type} {f : UInt64 → Accounted β} {Q : β → Prop}
    (hf : ∀ magnitude : UInt64, (magnitude.toNat : Int) = -offset.toInt →
      Yields (f magnitude) Q) :
    Yields (do
      let offsetValue ← convert toSigned offset
      let successor ← add offsetValue 1
      let opposite ← neg successor
      let unsigned ← convert Int64.toUInt64 opposite
      let magnitude ← add unsigned 1
      f magnitude) Q := by
  have hlow := (toSigned offset).le_toInt
  rw [toSigned_toInt hw] at hlow
  refine .bind (.convert (toSigned_toInt hw offset)) fun value hvalue => ?_
  rw [toInt_int64, toInt_bitVec] at hvalue
  have hone : (1 : Int64).toInt = 1 := rfl
  refine .bind (.signedAdd (by omega) (by omega)) fun successor hsuccessor => ?_
  refine .bind (.signedNeg (by omega)) fun opposite hopposite => ?_
  have hnonneg : 0 ≤ opposite := by
    rw [Int64.le_iff_toInt_le, Int64.toInt_zero]
    omega
  refine .bind (.unsigned hnonneg) fun unsigned hunsigned => ?_
  have hone' : (1 : UInt64).toNat = 1 := rfl
  refine .bind (.add (by omega)) fun magnitude hmagnitude => ?_
  exact hf magnitude (by omega)

theorem targetOf_spec (hw : 1 ≤ w) (hw' : w ≤ 64) (base : UInt64) (offset : BitVec w) :
    Yields (targetOf base offset) fun words =>
      Represents words (seekTarget (2 ^ (w - 1) - 1) base.toNat offset.toInt) := by
  have hmax := maximumOffset_toNat hw'
  have hpow : 2 ^ (w - 1) - 1 < 2 ^ 63 := by
    have := Nat.pow_le_pow_right (n := 2) (by omega) (show w - 1 ≤ 63 by omega)
    omega
  have hstore := fun (target : UInt64) (n : Nat) (h : target.toNat = n) => store_yields hw h
  unfold targetOf seekTarget
  generalize 2 ^ (w - 1) - 1 = maximum at *
  by_cases hbase : base > maximumOffset w
  · have hbase' : base.toNat > maximum := hmax ▸ UInt64.lt_iff_toNat_lt.mp hbase
    rw [if_pos hbase, if_pos hbase']
    exact .pure (.error _)
  have hbase' : ¬ base.toNat > maximum := fun h =>
    hbase (UInt64.lt_iff_toNat_lt.mpr (hmax.symm ▸ h))
  rw [if_neg hbase, if_neg hbase']
  by_cases hsign : 0 ≤ offset.toInt
  · have hunsigned := toUnsigned_toNat hw' hsign
    rw [if_pos hsign, if_pos hsign]
    refine .bind (.convert hunsigned)
      fun positive (hpositive : (positive.toNat : Int) = offset.toInt) => ?_
    refine .bind (.sub (by omega)) fun room hroom => ?_
    have hfits : positive > room ↔ offset.toInt.toNat > maximum - base.toNat := by
      rw [gt_iff_lt, UInt64.lt_iff_toNat_lt]
      omega
    by_cases hroom' : positive > room
    · rw [if_pos hroom', if_pos (hfits.mp hroom')]
      exact .pure (.error _)
    · have hroom'' := mt hfits.mpr hroom'
      rw [if_neg hroom', if_neg hroom'']
      refine .bind (.add (by omega)) fun target htarget => ?_
      exact hstore _ _ (by omega) (by omega)
  · rw [if_neg hsign, if_neg hsign]
    refine magnitude_yields hw' (by omega) fun magnitude hmagnitude => ?_
    have hless : magnitude > base ↔ (-(offset.toInt + 1)).toNat + 1 > base.toNat := by
      rw [gt_iff_lt, UInt64.lt_iff_toNat_lt]
      omega
    by_cases hless' : magnitude > base
    · rw [if_pos hless']
      simp only
      rw [if_pos (hless.mp hless')]
      exact .pure (.error _)
    · have hless'' := mt hless.mpr hless'
      rw [if_neg hless']
      simp only
      rw [if_neg hless'']
      refine .bind (.sub (by omega)) fun target htarget => ?_
      exact hstore _ _ (by omega) (by omega)

end

/-- What is to be answered: the sum, if neither it nor the base leaves the range of `off_t`. -/
def exactTarget (maximum base : Nat) (offset : Int) : Except Errno Nat :=
  if maximum < base then .error .eoverflow
  else if base + offset < 0 then .error .einval
  else if maximum < base + offset then .error .eoverflow
  else .ok (base + offset).toNat

theorem seekTarget_eq (maximum base : Nat) (offset : Int) :
    seekTarget maximum base offset = exactTarget maximum base offset := by
  unfold seekTarget exactTarget
  by_cases hbase : maximum < base
  · rw [if_pos hbase, if_pos hbase]
  rw [if_neg hbase, if_neg hbase]
  by_cases hsign : offset ≥ 0
  · have hsum : ¬ (base : Int) + offset < 0 := by omega
    rw [if_pos hsign, if_neg hsum]
    by_cases hfits : (maximum : Int) < base + offset
    · have hroom : offset.toNat > maximum - base := by omega
      rw [if_pos hroom, if_pos hfits]
    · have hroom : ¬ offset.toNat > maximum - base := by omega
      rw [if_neg hroom, if_neg hfits]
      congr 1
      omega
  · have hfits : ¬ (maximum : Int) < base + offset := by omega
    rw [if_neg hsign, if_neg hfits]
    simp only
    by_cases hless : (base : Int) + offset < 0
    · rw [if_pos (by omega), if_pos hless]
    · rw [if_neg (by omega), if_neg hless]
      congr 1
      omega

/-- A descriptor without a handle is opened again first. -/
def readyForSeek (o : Outcomes) (fs : FileSystem) (i : Fin maximumOpenFiles) :
    FileX × FileDescriptor × Option Errno :=
  let d := fs.descriptors i
  if d.openMode = none then
    switchMode o fs.mounted fs.fx d (if d.readable then .read else .write)
  else (fs.fx, d, none)

/-- The rest of `_lseek`, with the handle open. -/
def seekReady (o : Outcomes) (fs : FileSystem) (i : Fin maximumOpenFiles) (fx : FileX)
    (d : FileDescriptor) (offset : Int) (origin : Origin) : FileSystem × Except Errno Nat :=
  let fs := fs.setDescriptor i fx d
  match seekBase d origin with
  | none => (fs, .error .einval)
  | some base =>
    match seekTarget fs.maximumOffset base offset with
    | .error e => (fs, .error e)
    | .ok target =>
      let sought := o.fxFileExtendedSeek (o .seek) d.file target
      if sought.1 ≠ .success then (fs, .error ((filexErrno sought.1).getD .eio))
      else (fs.setDescriptor i fx { d with file := sought.2, position := target }, .ok target)

section
variable {o : Outcomes} {fs : FileSystem} {file : Int} {i : Fin maximumOpenFiles} {fx : FileX}
  {d : FileDescriptor} {offset : Int} {origin : Origin}

theorem sysLseek_eq (hi : descriptorFor fs file = some i) :
    sysLseek o fs file offset origin =
      match readyForSeek o fs i with
      | (fx, d, some e) => (fs.setDescriptor i fx d, .error e)
      | (fx, d, none) => seekReady o fs i fx d offset origin := by
  rw [sysLseek, hi]
  rfl

theorem reopen_position (mounted : Volume → Bool) (mode : OpenMode) :
    (reopen o mounted fx d mode).2.1.position = d.position := by
  unfold reopen
  simp only
  split
  · rfl
  · split
    · rfl
    · split <;> rfl

theorem readyForSeek_position :
    (readyForSeek o fs i).2.1.position = (fs.descriptors i).position := by
  unfold readyForSeek
  simp only
  split
  · rename_i h
    rw [switchMode, if_neg (by simp [h]), closeForSwitch, h]
    exact reopen_position ..
  · rfl

theorem seekReady_ok {base : Nat} (hbase : seekBase d origin = some base)
    (hseek : o .seek = none) :
    (seekReady o fs i fx d offset origin).2 = seekTarget fs.maximumOffset base offset := by
  simp only [seekReady, hbase, hseek, o.seek_file]
  cases h : seekTarget fs.maximumOffset base offset with
  | error e => simp [FileSystem.setDescriptor, h]
  | ok target => simp [FileSystem.setDescriptor, h]

theorem seekReady_failed {e : Errno} (h : (seekReady o fs i fx d offset origin).2 = .error e) :
    (seekReady o fs i fx d offset origin).1 = fs.setDescriptor i fx d := by
  unfold seekReady at h ⊢
  simp only at h ⊢
  split
  · rfl
  · rename_i hbase
    rw [hbase] at h
    simp only at h
    split
    · rfl
    · rename_i htarget
      rw [htarget] at h
      simp only at h
      split
      · rfl
      · rename_i hfailed
        rw [if_neg hfailed] at h
        cases h

theorem sysLseek_failed {e : Errno} (h : (sysLseek o fs file offset origin).2 = .error e)
    (j : Fin maximumOpenFiles) :
    ((sysLseek o fs file offset origin).1.descriptors j).position =
      (fs.descriptors j).position := by
  cases hi : descriptorFor fs file with
  | none => rw [sysLseek_bad offset origin hi]
  | some i =>
    have hposition : (readyForSeek o fs i).2.1.position = (fs.descriptors i).position :=
      readyForSeek_position
    have hkept : (sysLseek o fs file offset origin).1 =
        fs.setDescriptor i (readyForSeek o fs i).1 (readyForSeek o fs i).2.1 := by
      rw [sysLseek_eq hi] at h ⊢
      rcases hready : readyForSeek o fs i with ⟨fx, d, _ | e'⟩
      · rw [hready] at h
        exact seekReady_failed h
      · rfl
    rw [hkept]
    by_cases hj : j = i
    · subst hj
      rw [setDescriptor_self, hposition]
    · rw [setDescriptor_other _ _ _ hj]

end

theorem sysLseek_exact {w : Nat} (hw : 1 ≤ w) (hw' : w ≤ 64) (o : Outcomes) {fs : FileSystem}
    (hmax : fs.maximumOffset = 2 ^ (w - 1) - 1) (file : Int) (offset : BitVec w)
    (origin : Origin) :
    (∀ i fx d, ∀ base : UInt64, descriptorFor fs file = some i →
      readyForSeek o fs i = (fx, d, none) → seekBase d origin = some base.toNat →
      o .seek = none →
      (sysLseek o fs file offset.toInt origin).2 =
          exactTarget (2 ^ (w - 1) - 1) base.toNat offset.toInt ∧
        Yields (targetOf base offset) fun words =>
          Represents words (sysLseek o fs file offset.toInt origin).2) ∧
    ∀ e, (sysLseek o fs file offset.toInt origin).2 = .error e → ∀ j,
      ((sysLseek o fs file offset.toInt origin).1.descriptors j).position =
        (fs.descriptors j).position := by
  refine ⟨fun i fx d base hi hready hbase hseek => ?_, fun e h j => sysLseek_failed h j⟩
  have hresult : (sysLseek o fs file offset.toInt origin).2 =
      seekTarget (2 ^ (w - 1) - 1) base.toNat offset.toInt := by
    rw [sysLseek_eq hi, hready]
    simp only
    rw [seekReady_ok hbase hseek, hmax]
  rw [hresult]
  exact ⟨seekTarget_eq .., targetOf_spec hw hw' base offset⟩

/-- A descriptor at the end of a file of 2 ^ 31 bytes, which is a byte more than `off_t` can
count where it has 32 bits. -/
def largeFile : FileSystem where
  fx := ⟨emptyVolumes.fx.media, fun _ => List.replicate (2 ^ 31) 0, fun _ => 2 ^ 31,
    [⟨0, .flash, 0, .read⟩], 1, 1⟩
  mounted _ := true
  maximumOffset := 2 ^ 31 - 1
  descriptors := Function.update (fun _ => {}) 0 {
    allocated := true
    readable := true
    path := ['/', 'f', 'l', 'a', 's', 'h', '/', 'a']
    openMode := some .read
    position := 2 ^ 31
    file := ⟨0, .flash, 0, .read, 2 ^ 31, 2 ^ 31⟩ }
  directories _ := {}
  currentDirectory := mountName .flash
  renameBackupSequence := 0

theorem sysLseek_exact_largeFile :
    (sysLseek quiet largeFile 3 (BitVec.toInt (2 ^ 31 - 1 : BitVec 32)) .set).2 =
      exactTarget (2 ^ 31 - 1) 0 (BitVec.toInt (2 ^ 31 - 1 : BitVec 32)) :=
  ((sysLseek_exact (w := 32) (by decide) (by decide) quiet
    (rfl : largeFile.maximumOffset = 2 ^ (32 - 1) - 1) 3 _ .set).1
    0 _ _ 0 (by decide) rfl rfl rfl).1

/-- The byte before the end is in the range of `off_t`, yet it cannot be sought from the end. -/
theorem seek_from_beyond :
    seekBase (largeFile.descriptors 0) .end = some (2 ^ 31) ∧
      0 ≤ (2 ^ 31 + (-1) : Int) ∧ (2 ^ 31 + (-1) : Int) ≤ largeFile.maximumOffset ∧
      (sysLseek quiet largeFile 3 (-1) .end).2 = .error .eoverflow := by
  refine ⟨rfl, by decide, by decide, ?_⟩
  rw [sysLseek_eq (i := 0) (by decide), show readyForSeek quiet largeFile 0 =
    (largeFile.fx, largeFile.descriptors 0, none) from rfl]
  simp only
  have hbase : seekBase (largeFile.descriptors 0) .end = some (2 ^ 31) := rfl
  rw [seekReady_ok hbase rfl]
  rfl

end SimPLCity.SeekArithmetic
