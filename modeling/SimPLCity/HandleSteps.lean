import SimPLCity.LocatedPaths
import SimPLCity.Runs

/-! What a call on a descriptor can do to its FileX handle, one FileX call at a time.
Every call is a sequence of such steps, so an invariant of the steps is an invariant
of all the calls on descriptors. -/

namespace SimPLCity.HandleSteps
open PathText FileXVolume PathTree FileDescriptors FileNamespace
open Relation (ReflTransGen)

abbrev Handle := FileX × FileDescriptor

/-- The handle knows the size of its file and stands within it. -/
def Sized (fx : FileX) (file : FxFile) : Prop :=
  file.currentFileSize = (fx.content file.object).length ∧
    file.currentFileOffset ≤ file.currentFileSize

inductive HandleStep (mounted : Volume → Bool) : Handle → Handle → Prop
  | adjust {fx d} (position offset : Nat)
      (within : Sized fx d.file → offset ≤ d.file.currentFileSize) :
      HandleStep mounted (fx, d)
        (fx, { d with position := position, file := { d.file with currentFileOffset := offset } })
  | put {fx d} (isOpen : d.openMode ≠ none) (writer : d.file.mode = .write)
      (content : List UInt8) (offset size : Nat)
      (sized : Sized fx d.file → offset ≤ size ∧ size = content.length) :
      HandleStep mounted (fx, d)
        ({ fx with content := Function.update fx.content d.file.object content },
          { d with
            file := { d.file with currentFileOffset := offset, currentFileSize := size } })
  | close {fx d} (x : Service) (fault : Option Fault) (isOpen : d.openMode ≠ none) :
      HandleStep mounted (fx, d) ((x.fxFileClose fault fx d.file).2, { d with openMode := none })
  | forget {fx d} (closed : d.openMode = none) :
      HandleStep mounted (fx, d) (fx, { d with file := {} })
  | reopen {fx d r mode n} (closed : d.openMode = none)
      (resolved : resolveNormalizedPath mounted d.path = .ok r)
      (entry : fx.find? r.volume r.localPath = some n) (isFile : n.directory = false)
      (free : fx.conflicts n.object mode = false) :
      HandleStep mounted (fx, d)
        ({ fx with
            opened := ⟨fx.nextHandle, r.volume, n.object, mode⟩ :: fx.opened
            nextHandle := fx.nextHandle + 1 },
          { d with
            file := ⟨fx.nextHandle, r.volume, n.object, mode, 0, fx.entrySize n.object⟩
            openMode := some mode })

abbrev Steps (mounted : Volume → Bool) := ReflTransGen (HandleStep mounted)

section
variable {mounted : Volume → Bool} {o : Outcomes} {fx : FileX} {d : FileDescriptor}
  {mode : OpenMode}

/-- Closing and opening handles changes no directory entry. -/
structure SameVolumes (fx fx' : FileX) : Prop where
  media : fx'.media = fx.media
  nextObject : fx'.nextObject = fx.nextObject

structure SameDescriptor (d d' : FileDescriptor) : Prop where
  path : d'.path = d.path
  allocated : d'.allocated = d.allocated
  readable : d'.readable = d.readable
  writable : d'.writable = d.writable
  append : d'.append = d.append

theorem SameDescriptor.trans {d d' d'' : FileDescriptor} (h : SameDescriptor d d')
    (h' : SameDescriptor d' d'') : SameDescriptor d d'' :=
  ⟨h'.path.trans h.path, h'.allocated.trans h.allocated, h'.readable.trans h.readable,
    h'.writable.trans h.writable, h'.append.trans h.append⟩

theorem fxFileClose_cases (x : Service) (fault : Option Fault) (fx : FileX) (file : FxFile) :
    (x.fxFileClose fault fx file).2 = fx ∨ (x.fxFileClose fault fx file).2 = fx.closed file := by
  cases fault with
  | some f => exact Or.inl (congrArg Prod.snd (x.close_fault f fx file))
  | none => exact Or.inr (congrArg Prod.snd (x.close_file fx file))

theorem fxFileWrite_cases (x : Service) (fault : Option Fault) (fx : FileX) (file : FxFile)
    (bytes : List UInt8) :
    (∃ st, x.fxFileWrite fault fx file bytes = (st, fx, file)) ∨
    file.mode = .write ∧ x.fxFileWrite fault fx file bytes =
      (.success,
        { fx with
          content := Function.update fx.content file.object
            (CursorFile.overwrite (fx.content file.object) file.currentFileOffset bytes) },
        { file with
          currentFileOffset := file.currentFileOffset + bytes.length
          currentFileSize := max file.currentFileSize (file.currentFileOffset + bytes.length) }) := by
  cases fault with
  | some f => exact Or.inl ⟨_, x.write_fault f fx file bytes⟩
  | none =>
    by_cases hmode : file.mode = .write
    · exact Or.inr ⟨hmode, x.write_file fx file bytes hmode⟩
    · exact Or.inl ⟨_, x.write_reader fx file bytes hmode⟩

theorem fxFileExtendedTruncateRelease_cases (x : Service) (fault : Option Fault) (fx : FileX)
    (file : FxFile) (size : Nat) :
    (∃ st, x.fxFileExtendedTruncateRelease fault fx file size = (st, fx, file)) ∨
    fault = none ∧ file.mode = .write ∧ x.fxFileExtendedTruncateRelease fault fx file size =
      (.success,
        { fx with
          content := Function.update fx.content file.object
            ((fx.content file.object).take size) },
        { file with
          currentFileOffset := min file.currentFileOffset size
          currentFileSize := min file.currentFileSize size }) := by
  cases fault with
  | some f => exact Or.inl ⟨_, x.truncate_fault f fx file size⟩
  | none =>
    by_cases hmode : file.mode = .write
    · exact Or.inr ⟨rfl, hmode, x.truncate_file fx file size hmode⟩
    · exact Or.inl ⟨_, x.truncate_reader fx file size hmode⟩

/-- A seek moves the offset, within the file. -/
theorem fxFileExtendedSeek_offset (x : Service) (fault : Option Fault) (file : FxFile) (target : Nat) :
    ∃ offset, (x.fxFileExtendedSeek fault file target).2 = { file with currentFileOffset := offset } ∧
      (file.currentFileOffset ≤ file.currentFileSize → offset ≤ file.currentFileSize) := by
  cases fault with
  | some f => exact ⟨file.currentFileOffset, congrArg Prod.snd (x.seek_fault f file target), id⟩
  | none =>
    exact ⟨_, congrArg Prod.snd (x.seek_file file target), fun _ => Nat.min_le_right ..⟩

/-- So does a read. -/
theorem fxFileRead_offset (x : Service) (fault : Option Fault) (fx : FileX) (file : FxFile)
    (length : Nat) :
    ∃ offset, (x.fxFileRead fault fx file length).2.2 = { file with currentFileOffset := offset } ∧
      (Sized fx file → offset ≤ file.currentFileSize) := by
  cases fault with
  | some f =>
    obtain ⟨bytes, hread⟩ := x.read_fault f fx file length
    exact ⟨file.currentFileOffset, by rw [hread], And.right⟩
  | none =>
    by_cases hend : file.currentFileSize ≤ file.currentFileOffset
    · exact ⟨file.currentFileOffset, by rw [x.read_end _ _ _ hend], And.right⟩
    · obtain ⟨actual, rfl, hread⟩ := x.read_file fx file length (not_le.mp hend)
      refine ⟨_, by rw [hread], fun ⟨hsize, hoff⟩ => ?_⟩
      rw [hsize] at hoff ⊢
      simp only [List.length_take, List.length_drop]
      omega

theorem HandleStep.frame {s s' : Handle} (h : HandleStep mounted s s') :
    SameVolumes s.1 s'.1 ∧ SameDescriptor s.2 s'.2 := by
  cases h with
  | close x fault _ =>
    refine ⟨?_, ⟨rfl, rfl, rfl, rfl, rfl⟩⟩
    rcases fxFileClose_cases x fault _ _ with hclose | hclose <;> rw [hclose]
    · exact ⟨rfl, rfl⟩
    · exact ⟨rfl, rfl⟩
  | _ => exact ⟨⟨rfl, rfl⟩, ⟨rfl, rfl, rfl, rfl, rfl⟩⟩

theorem Steps.frame {s s' : Handle} (h : Steps mounted s s') :
    SameVolumes s.1 s'.1 ∧ SameDescriptor s.2 s'.2 := by
  induction h with
  | refl => exact ⟨⟨rfl, rfl⟩, ⟨rfl, rfl, rfl, rfl, rfl⟩⟩
  | tail _ hlast ih =>
    obtain ⟨⟨hm, hn⟩, hsame⟩ := hlast.frame
    obtain ⟨⟨im, inx⟩, isame⟩ := ih
    exact ⟨⟨hm.trans im, hn.trans inx⟩, isame.trans hsame⟩

theorem adjust_steps (fx : FileX) (d : FileDescriptor) (position offset : Nat)
    (within : Sized fx d.file → offset ≤ d.file.currentFileSize) :
    Steps mounted (fx, d)
      (fx, { d with position := position, file := { d.file with currentFileOffset := offset } }) :=
  .single (.adjust position offset within)

theorem closeForSwitch_steps (mounted : Volume → Bool) (o : Outcomes) (fx : FileX) (d : FileDescriptor) :
    Steps mounted (fx, d) ((closeForSwitch o fx d).1, (closeForSwitch o fx d).2.1) ∧
      (closeForSwitch o fx d).2.1.openMode = none := by
  unfold closeForSwitch
  cases hd : d.openMode with
  | none => exact ⟨.refl, hd⟩
  | some m =>
    refine ⟨?_, rfl⟩
    exact (adjust_steps fx d d.file.currentFileOffset _ And.right).tail (.close o _ (by simp [hd]))

theorem seek_steps (mounted : Volume → Bool) (x : Service) (fault : Option Fault) (fx : FileX)
    (d : FileDescriptor) (position target : Nat) :
    Steps mounted (fx, d)
      (fx, { d with position := position, file := (x.fxFileExtendedSeek fault d.file target).2 }) := by
  obtain ⟨offset, hseek, hoffset⟩ := fxFileExtendedSeek_offset x fault d.file target
  rw [hseek]
  exact adjust_steps fx d position offset fun h => hoffset h.2

theorem fxFileOpen_cases (x : Service) (fault : Option Fault) (fx : FileX) (v : Volume)
    (path : CStr) (mode : OpenMode) :
    (∃ st e file, filexErrno st = some e ∧ st ≠ .success ∧
      x.fxFileOpen fault fx v path mode = (st, fx, file)) ∨
    ∃ n, fault = none ∧ fx.find? v path = some n ∧ n.directory = false ∧
      fx.conflicts n.object mode = false ∧ x.fxFileOpen fault fx v path mode =
        (.success,
          { fx with
            opened := ⟨fx.nextHandle, v, n.object, mode⟩ :: fx.opened
            nextHandle := fx.nextHandle + 1 },
          ⟨fx.nextHandle, v, n.object, mode, 0, fx.entrySize n.object⟩) := by
  cases fault with
  | some f =>
    obtain ⟨e, hf⟩ := Option.ne_none_iff_exists'.mp f.filexErrno_ne_none
    obtain ⟨file, hopen⟩ := x.open_fault f fx v path mode
    exact Or.inl ⟨f.status, e, file, hf, f.status_ne_success, hopen⟩
  | none =>
    cases hn : fx.find? v path with
    | none =>
      obtain ⟨file, hopen⟩ := x.open_missing fx v path mode hn
      exact Or.inl ⟨.notFound, .enoent, file, rfl, by decide, hopen⟩
    | some n =>
      cases hd : n.directory with
      | true =>
        obtain ⟨file, hopen⟩ := x.open_directory fx v path mode n hn hd
        exact Or.inl ⟨.notAFile, .eisdir, file, rfl, by decide, hopen⟩
      | false =>
        cases hc : fx.conflicts n.object mode with
        | true =>
          obtain ⟨file, hopen⟩ := x.open_conflict fx v path mode n hn hd hc
          exact Or.inl ⟨.accessError, .eacces, file, rfl, by decide, hopen⟩
        | false => exact Or.inr ⟨n, rfl, rfl, hd, hc, x.open_file fx v path mode n hn hd hc⟩

theorem reopen_cases (o : Outcomes) (mounted : Volume → Bool) (fx : FileX) (d : FileDescriptor)
    (mode : OpenMode) :
    (∃ e, reopen o mounted fx d mode = (fx, { d with file := {} }, some e)) ∨
    ∃ r n, resolveNormalizedPath mounted d.path = .ok r ∧
      ¬ (r.virtualRoot || r.mountRoot) = true ∧ o .fileOpen = none ∧
      fx.find? r.volume r.localPath = some n ∧ n.directory = false ∧
      fx.conflicts n.object mode = false ∧
      reopen o mounted fx d mode =
        ({ fx with
            opened := ⟨fx.nextHandle, r.volume, n.object, mode⟩ :: fx.opened
            nextHandle := fx.nextHandle + 1 },
          { d with
            file := (o.fxFileExtendedSeek (o .modeSeek)
              ⟨fx.nextHandle, r.volume, n.object, mode, 0, fx.entrySize n.object⟩ d.position).2
            openMode := some mode },
          filexErrno (o.fxFileExtendedSeek (o .modeSeek)
            ⟨fx.nextHandle, r.volume, n.object, mode, 0, fx.entrySize n.object⟩ d.position).1) := by
  cases hr : resolveNormalizedPath mounted d.path with
  | error e => exact Or.inl ⟨e, by simp [reopen, hr]⟩
  | ok r =>
    by_cases hroot : (r.virtualRoot || r.mountRoot) = true
    · exact Or.inl ⟨.eisdir, by simp [reopen, hr, hroot]⟩
    · rcases fxFileOpen_cases o (o .fileOpen) fx r.volume r.localPath mode with
        ⟨st, e, file, hst, hne, hopen⟩ | ⟨n, hf, hn, hdir, hc, hopen⟩
      · exact Or.inl ⟨e, by simp [reopen, hr, hroot, hopen, hne, hst]⟩
      · exact Or.inr ⟨r, n, rfl, hroot, hf, hn, hdir, hc, by simp [reopen, hr, hroot, hopen]⟩

theorem reopen_steps (mounted : Volume → Bool) (o : Outcomes) (fx : FileX) (d : FileDescriptor) (mode : OpenMode)
    (hd : d.openMode = none) :
    Steps mounted (fx, d) ((reopen o mounted fx d mode).1, (reopen o mounted fx d mode).2.1) ∧
      ((reopen o mounted fx d mode).2.2 = none →
        (reopen o mounted fx d mode).2.1.openMode = some mode) := by
  rcases reopen_cases o mounted fx d mode with ⟨e, hfail⟩ | ⟨r, n, hr, _, _, hn, hdir, hfree, hok⟩
  · rw [hfail]
    exact ⟨.single (.forget hd), by simp⟩
  · rw [hok]
    exact ⟨ReflTransGen.trans (.single (.reopen hd hr hn hdir hfree)) (seek_steps mounted o (o .modeSeek) _
      { d with file := _, openMode := some mode } d.position d.position), fun _ => rfl⟩

theorem switchMode_steps {fx' : FileX} {d' : FileDescriptor} {e : Option Errno}
    (h : switchMode o mounted fx d mode = (fx', d', e)) :
    Steps mounted (fx, d) (fx', d') ∧ (e = none → d'.openMode = some mode) := by
  unfold switchMode at h
  split at h
  · rename_i hd
    cases h
    exact ⟨.refl, fun _ => hd⟩
  · obtain ⟨hclose, hnone⟩ := closeForSwitch_steps mounted o fx d
    rcases hc : closeForSwitch o fx d with ⟨fx₁, d₁, _ | e₁⟩ <;> rw [hc] at h hclose hnone
    · obtain ⟨hre, hmode⟩ := reopen_steps mounted o fx₁ d₁ mode hnone
      simp only at h
      rw [h] at hre hmode
      exact ⟨hclose.trans hre, hmode⟩
    · cases h
      exact ⟨hclose, by simp⟩

theorem switchMode_content (o : Outcomes) (mounted : Volume → Bool) (fx : FileX)
    (d : FileDescriptor) (mode : OpenMode) :
    (switchMode o mounted fx d mode).1.content = fx.content := by
  have hclose : (closeForSwitch o fx d).1.content = fx.content := by
    unfold closeForSwitch
    cases d.openMode with
    | none => rfl
    | some m =>
      rcases fxFileClose_cases o (o .switchClose) fx d.file with hclose | hclose
      · simp only [hclose]
      · simp only [hclose, FileX.closed]
  unfold switchMode
  split
  · rfl
  · rcases hc : closeForSwitch o fx d with ⟨fx₁, d₁, _ | e₁⟩ <;> rw [hc] at hclose
    · rcases reopen_cases o mounted fx₁ d₁ mode with ⟨e, h⟩ | ⟨r, n, _, _, _, _, _, _, h⟩ <;>
        simp only [h] <;> exact hclose
    · exact hclose

theorem fxFileWrite_steps (mounted : Volume → Bool) (x : Service) (fault : Option Fault) (fx : FileX)
    (d : FileDescriptor) (bytes : List UInt8) (hd : d.openMode ≠ none) :
    Steps mounted (fx, d)
      ((x.fxFileWrite fault fx d.file bytes).2.1,
        { d with file := (x.fxFileWrite fault fx d.file bytes).2.2 }) := by
  rcases fxFileWrite_cases x fault fx d.file bytes with ⟨st, hwrite⟩ | ⟨hmode, hwrite⟩ <;> rw [hwrite]
  refine .single (.put hd hmode _ _ _ fun ⟨hsize, hoff⟩ => ⟨le_max_right .., ?_⟩)
  rw [CursorFile.length_overwrite bytes (hsize ▸ hoff), hsize]

theorem fxFileExtendedTruncateRelease_steps (mounted : Volume → Bool) (x : Service)
    (fault : Option Fault) (fx : FileX) (d : FileDescriptor) (size : Nat) (hd : d.openMode ≠ none) :
    Steps mounted (fx, d)
      ((x.fxFileExtendedTruncateRelease fault fx d.file size).2.1,
        { d with file := (x.fxFileExtendedTruncateRelease fault fx d.file size).2.2 }) := by
  rcases fxFileExtendedTruncateRelease_cases x fault fx d.file size with
    ⟨st, hcut⟩ | ⟨-, hmode, hcut⟩ <;> rw [hcut]
  refine .single (.put hd hmode _ _ _ fun ⟨hsize, hoff⟩ => ⟨?_, ?_⟩)
  · omega
  · rw [List.length_take, hsize, Nat.min_comm]

theorem writeZeroes_steps (mounted : Volume → Bool) (o : Outcomes) (fx : FileX) (d : FileDescriptor)
    (hd : d.openMode ≠ none) (fuel chunk remaining : Nat) :
    Steps mounted (fx, d)
      ((writeZeroes o fx d.file fuel chunk remaining).1,
        { d with file := (writeZeroes o fx d.file fuel chunk remaining).2.1 }) := by
  induction fuel generalizing fx d chunk remaining with
  | zero => exact .refl
  | succ fuel ih =>
    rw [writeZeroes]
    split
    · exact .refl
    · have hput := fxFileWrite_steps mounted o (o (.zeroWrite chunk)) fx d
        (List.replicate (min remaining 64) 0) hd
      simp only
      split
      · exact hput
      · let put := o.fxFileWrite (o (.zeroWrite chunk)) fx d.file (List.replicate (min remaining 64) 0)
        exact hput.trans (ih put.2.1 { d with file := put.2.2 } hd _ _)

theorem resizeFile_steps (mounted : Volume → Bool) (o : Outcomes) (fx : FileX) (d : FileDescriptor) (length : Nat)
    (hd : d.openMode ≠ none) :
    Steps mounted (fx, d)
      ((resizeFile o fx d.file length).1,
        { d with file := (resizeFile o fx d.file length).2.1 }) := by
  unfold resizeFile
  simp only
  split
  · exact fxFileExtendedTruncateRelease_steps mounted o _ fx d length hd
  · split
    · have hseek := seek_steps mounted o (o .growSeek) fx d d.position
        d.file.currentFileSize
      split
      · exact hseek
      · let sought := o.fxFileExtendedSeek (o .growSeek) d.file d.file.currentFileSize
        exact hseek.trans (writeZeroes_steps mounted o fx { d with file := sought.2 } hd _ _ _)
    · exact .refl

end

theorem slotOf_fileNumber (i : Fin maximumOpenFiles) : slotOf (fileNumber i) = some i := by
  unfold slotOf fileNumber firstFileDescriptor
  have := i.isLt
  rw [dif_pos (by omega)]
  congr 1
  ext
  simp only
  omega

@[simp] theorem setDescriptor_setDescriptor (fs : FileSystem) (i : Fin maximumOpenFiles)
    (fx fx' : FileX) (d d' : FileDescriptor) :
    (fs.setDescriptor i fx d).setDescriptor i fx' d' = fs.setDescriptor i fx' d' := by
  simp [FileSystem.setDescriptor]

@[simp] theorem setDescriptor_fx (fs : FileSystem) (i : Fin maximumOpenFiles) (fx : FileX)
    (d : FileDescriptor) : (fs.setDescriptor i fx d).fx = fx := rfl

@[simp] theorem setDescriptor_mounted (fs : FileSystem) (i : Fin maximumOpenFiles) (fx : FileX)
    (d : FileDescriptor) : (fs.setDescriptor i fx d).mounted = fs.mounted := rfl

@[simp] theorem setDescriptor_self (fs : FileSystem) (i : Fin maximumOpenFiles) (fx : FileX)
    (d : FileDescriptor) : (fs.setDescriptor i fx d).descriptors i = d := Function.update_self ..

theorem setDescriptor_other (fs : FileSystem) {i j : Fin maximumOpenFiles} (fx : FileX)
    (d : FileDescriptor) (h : j ≠ i) :
    (fs.setDescriptor i fx d).descriptors j = fs.descriptors j := Function.update_of_ne h ..

/-- Nothing happens, or the handle of descriptor `i` makes some steps. -/
def Touched (fs fs' : FileSystem) (i : Fin maximumOpenFiles) : Prop :=
  fs' = fs ∨ ∃ fx d, fs' = fs.setDescriptor i fx d ∧
    Steps fs.mounted (fs.fx, fs.descriptors i) (fx, d)

section
variable {o : Outcomes} {fs : FileSystem} {file : Int} {i : Fin maximumOpenFiles}

theorem fxFileRead_steps (mounted : Volume → Bool) (x : Service) (fault : Option Fault) (fx : FileX)
    (d : FileDescriptor) (length position : Nat) :
    Steps mounted (fx, d)
      (fx, { d with position := position, file := (x.fxFileRead fault fx d.file length).2.2 }) := by
  obtain ⟨offset, hread, hoffset⟩ := fxFileRead_offset x fault fx d.file length
  rw [hread]
  exact adjust_steps fx d position offset hoffset

theorem sysRead_touched (length : Int) (hi : descriptorFor fs file = some i) :
    Touched fs (sysRead o fs file length).1 i := by
  unfold sysRead
  split
  · exact Or.inl rfl
  · simp only [hi]
    split
    · exact Or.inl rfl
    · split
      · exact Or.inl rfl
      · right
        rcases hsw : switchMode o fs.mounted fs.fx (fs.descriptors i) .read with ⟨fx, d, _ | e⟩
        · obtain ⟨hs, _⟩ := switchMode_steps hsw
          exact ⟨_, _, rfl, hs.trans (fxFileRead_steps fs.mounted o (o .fileRead) fx d _ _)⟩
        · exact ⟨_, _, rfl, (switchMode_steps hsw).1⟩

theorem positionForWrite_steps (mounted : Volume → Bool) (o : Outcomes) (fx : FileX)
    (d : FileDescriptor) : Steps mounted (fx, d) (fx, (positionForWrite o d).1) ∧
      (positionForWrite o d).1.openMode = d.openMode := by
  unfold positionForWrite
  split
  · exact ⟨seek_steps mounted o _ fx d _ _, rfl⟩
  · exact ⟨.refl, rfl⟩

theorem sysWrite_touched (buffer : List UInt8) (hi : descriptorFor fs file = some i) :
    Touched fs (sysWrite o fs file buffer).1 i := by
  unfold sysWrite
  simp only [hi]
  split
  · exact Or.inl rfl
  · split
    · exact Or.inl rfl
    · right
      rcases hsw : switchMode o fs.mounted fs.fx (fs.descriptors i) .write with ⟨fx, d, _ | e⟩
      · obtain ⟨hs, hmode⟩ := switchMode_steps hsw
        obtain ⟨hpos, hopen⟩ := positionForWrite_steps fs.mounted o fx d
        have hd : (positionForWrite o d).1.openMode ≠ none := by simp [hopen, hmode rfl]
        rcases hp : positionForWrite o d with ⟨d', _ | e⟩ <;> rw [hp] at hpos hd <;> simp only [hp]
        · exact ⟨_, _, rfl, (hs.trans hpos).trans
            ((fxFileWrite_steps fs.mounted o (o .fileWrite) fx d' buffer hd).tail (.adjust _ _ And.right))⟩
        · exact ⟨_, _, rfl, hs.trans hpos⟩
      · exact ⟨_, _, rfl, (switchMode_steps hsw).1⟩

theorem sysLseek_touched (offset : Int) (origin : Origin) (hi : descriptorFor fs file = some i) :
    Touched fs (sysLseek o fs file offset origin).1 i := by
  right
  unfold sysLseek
  simp only [hi]
  -- the handle is opened first when a failed switch has left the descriptor without one
  have hreopened : ∀ fx d e, (if (fs.descriptors i).openMode = none then
        switchMode o fs.mounted fs.fx (fs.descriptors i)
          (if (fs.descriptors i).readable then .read else .write)
      else (fs.fx, fs.descriptors i, none)) = (fx, d, e) →
      Steps fs.mounted (fs.fx, fs.descriptors i) (fx, d) := by
    intro fx d e h
    split at h
    · exact (switchMode_steps h).1
    · cases h
      exact .refl
  split
  · rename_i heq
    exact ⟨_, _, rfl, hreopened _ _ _ heq⟩
  · rename_i fx d heq
    have hs := hreopened _ _ _ heq
    split
    · exact ⟨_, _, rfl, hs⟩
    · split
      · exact ⟨_, _, rfl, hs⟩
      · split
        · exact ⟨_, _, rfl, hs⟩
        · exact ⟨_, _, setDescriptor_setDescriptor .., hs.trans
            (seek_steps fs.mounted o (o .seek) fx d _ _)⟩

theorem sysFtruncate_touched (length : Int) (hi : descriptorFor fs file = some i) :
    Touched fs (sysFtruncate o fs file length).1 i := by
  unfold sysFtruncate
  split
  · exact Or.inl rfl
  · simp only [hi]
    split
    · exact Or.inl rfl
    · right
      rcases hsw : switchMode o fs.mounted fs.fx (fs.descriptors i) .write with ⟨fx, d, _ | e⟩
      · obtain ⟨hs, hmode⟩ := switchMode_steps hsw
        have hd : d.openMode ≠ none := by simp [hmode rfl]
        have hresize := resizeFile_steps fs.mounted o fx d length.toNat hd
        rcases hre : resizeFile o fx d.file length.toNat with ⟨fx', file', _ | e⟩ <;>
          rw [hre] at hresize <;> simp only [hre]
        · exact ⟨_, _, rfl, (hs.trans hresize).trans (seek_steps fs.mounted o _ fx'
            { d with file := file' } _ _)⟩
        · exact ⟨_, _, rfl, hs.trans hresize⟩
      · exact ⟨_, _, rfl, (switchMode_steps hsw).1⟩

/-! A call without a descriptor leaves the file system alone. -/

theorem sysRead_bad (length : Int) (hi : descriptorFor fs file = none) :
    (sysRead o fs file length).1 = fs := by
  simp only [sysRead, hi]
  split <;> rfl

theorem sysWrite_bad (buffer : List UInt8) (hi : descriptorFor fs file = none) :
    (sysWrite o fs file buffer).1 = fs := by
  simp only [sysWrite, hi]

theorem sysLseek_bad (offset : Int) (origin : Origin) (hi : descriptorFor fs file = none) :
    (sysLseek o fs file offset origin).1 = fs := by
  simp only [sysLseek, hi]

theorem sysFtruncate_bad (length : Int) (hi : descriptorFor fs file = none) :
    (sysFtruncate o fs file length).1 = fs := by
  simp only [sysFtruncate, hi]
  split <;> rfl

end

end SimPLCity.HandleSteps
