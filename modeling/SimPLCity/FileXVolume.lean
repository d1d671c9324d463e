import SimPLCity.PathTree
import SimPLCity.PathText
import SimPLCity.CursorFile

/-! The part of FileX that the libc adapter uses. FileX is not part of the repository:
what its calls do is given by laws, from its documentation, and there is one service
that obeys them. Each volume is a directory tree whose names agree up to ASCII case.
A call may fail for a reason of its own (a `Fault`); then it has no effect. A file is
open for any number of readers or for one writer. The size in a directory entry is
brought up to date only when a handle is closed or the media is flushed.
The media's default directory is not kept: every path the adapter passes is
absolute, and it lists a directory only right after selecting it. -/

namespace SimPLCity.FileXVolume
open PathTree PathText

inductive Volume
  | flash | sd
deriving DecidableEq, Repr

inductive Status
  | success | notFound | notOpen | mediaNotOpen | alreadyCreated | invalidName | invalidPath
  | invalidOption | ptrError | notAFile | notDirectory | dirNotEmpty | noMoreSpace
  | notEnoughMemory | accessError | writeProtect | endOfFile | noMoreEntries | notImplemented
  | ioError | fileCorrupt
deriving DecidableEq, Repr

/-- `none` is the error number 0. -/
def filexErrno : Status → Option Errno
  | .success => none
  | .notFound | .notOpen | .mediaNotOpen => some .enoent
  | .alreadyCreated => some .eexist
  | .invalidName | .invalidPath | .invalidOption | .ptrError => some .einval
  | .notAFile => some .eisdir
  | .notDirectory => some .enotdir
  | .dirNotEmpty => some .enotempty
  | .noMoreSpace | .notEnoughMemory => some .enospc
  | .accessError | .writeProtect => some .eacces
  | .endOfFile | .noMoreEntries => none
  | .notImplemented => some .enotsup
  | .ioError | .fileCorrupt => some .eio

/-- Failures that do not answer the question a call asks. -/
inductive Fault
  | ioError | fileCorrupt | noMoreSpace | notEnoughMemory | writeProtect | accessError
  | mediaNotOpen
deriving DecidableEq, Repr

def Fault.status : Fault → Status
  | .ioError => .ioError
  | .fileCorrupt => .fileCorrupt
  | .noMoreSpace => .noMoreSpace
  | .notEnoughMemory => .notEnoughMemory
  | .writeProtect => .writeProtect
  | .accessError => .accessError
  | .mediaNotOpen => .mediaNotOpen

@[simp] theorem Fault.status_ne_success (f : Fault) : f.status ≠ .success := by
  cases f <;> decide

@[simp] theorem Fault.filexErrno_ne_none (f : Fault) : filexErrno f.status ≠ none := by
  cases f <;> decide

inductive OpenMode
  | read | write
deriving DecidableEq, Repr

abbrev ObjectId := Nat

/-- FX_FILE. -/
structure FxFile where
  handle : Nat := 0
  media : Volume := .flash
  object : ObjectId := 0
  mode : OpenMode := .read
  currentFileOffset : Nat := 0
  currentFileSize : Nat := 0
deriving DecidableEq, Repr

/-- An entry of a media's list of open files. -/
structure OpenRecord where
  handle : Nat
  media : Volume
  object : ObjectId
  mode : OpenMode
deriving DecidableEq, Repr

structure FileX where
  media : Volume → Tree Name ObjectId
  content : ObjectId → List UInt8
  entrySize : ObjectId → Nat
  opened : List OpenRecord
  nextObject : ObjectId
  nextHandle : Nat

def FileX.find? (fx : FileX) (v : Volume) (path : CStr) : Option (Node ObjectId) :=
  (fx.media v).find? (pathKey path)

def FileX.setMedia (fx : FileX) (v : Volume) (t : Tree Name ObjectId) : FileX :=
  { fx with media := Function.update fx.media v t }

@[simp] theorem setMedia_media_self (fx : FileX) (v : Volume) (t : Tree Name ObjectId) :
    (fx.setMedia v t).media v = t := Function.update_self ..

theorem setMedia_media_ne (fx : FileX) {v w : Volume} (t : Tree Name ObjectId) (h : w ≠ v) :
    (fx.setMedia v t).media w = fx.media w := Function.update_of_ne h ..

@[simp] theorem setMedia_content (fx : FileX) (v : Volume) (t : Tree Name ObjectId) :
    (fx.setMedia v t).content = fx.content := rfl

@[simp] theorem setMedia_opened (fx : FileX) (v : Volume) (t : Tree Name ObjectId) :
    (fx.setMedia v t).opened = fx.opened := rfl

structure EntryInformation where
  size : Nat := 0
  directory : Bool := true
deriving DecidableEq, Repr

/-- The new entry's object is one that no entry ever had. -/
def FileX.addEntry (fx : FileX) (v : Volume) (k : List Name) (directory : Bool)
    (h : (fx.media v).Free k) : FileX :=
  { fx.setMedia v ((fx.media v).insert k ⟨fx.nextObject, directory⟩ h) with
    content := Function.update fx.content fx.nextObject []
    entrySize := Function.update fx.entrySize fx.nextObject 0
    nextObject := fx.nextObject + 1 }

def FileX.isOpen (fx : FileX) (o : ObjectId) : Bool := fx.opened.any (·.object = o)

def FileX.conflicts (fx : FileX) (o : ObjectId) : OpenMode → Bool
  | .read => fx.opened.any fun r => r.object = o && r.mode = .write
  | .write => fx.opened.any fun r => r.object = o

def FileX.closed (fx : FileX) (file : FxFile) : FileX :=
  { fx with
    opened := fx.opened.filter (·.handle ≠ file.handle)
    entrySize :=
      if file.mode = .write then Function.update fx.entrySize file.object file.currentFileSize
      else fx.entrySize }

/-- The entries of the files open for writing on this media are brought up to date. -/
def FileX.flushed (fx : FileX) (v : Volume) : FileX :=
  { fx with
    entrySize := fun o =>
      if fx.opened.any fun r => r.object = o && r.media = v && r.mode = .write then
        (fx.content o).length
      else fx.entrySize o }

/-- What first/next entry find report for `path`, in order. -/
def directoryEntries (fx : FileX) (v : Volume) (path : CStr) : List Name :=
  ['.'] :: ['.', '.'] :: (fx.media v).children (pathKey path)

/-- The calls; the first argument is the fault of a call. `createEntry` and `renameEntry` are the
calls for files and for directories. -/
structure Calls where
  fxDirectoryInformationGet : Option Fault → FileX → Volume → CStr → Status × EntryInformation
  createEntry : Bool → Option Fault → FileX → Volume → CStr → Status × FileX
  fxFileDelete : Option Fault → FileX → Volume → CStr → Status × FileX
  fxDirectoryDelete : Option Fault → FileX → Volume → CStr → Status × FileX
  renameEntry : Bool → Option Fault → FileX → Volume → CStr → CStr → Status × FileX
  fxDirectoryEntryFind : FileX → Volume → CStr → List Name
  fxFileOpen : Option Fault → FileX → Volume → CStr → OpenMode → Status × FileX × FxFile
  fxFileClose : Option Fault → FileX → FxFile → Status × FileX
  fxFileRead : Option Fault → FileX → FxFile → Nat → Status × List UInt8 × FxFile
  fxFileWrite : Option Fault → FileX → FxFile → List UInt8 → Status × FileX × FxFile
  fxFileExtendedSeek : Option Fault → FxFile → Nat → Status × FxFile
  fxFileExtendedTruncateRelease : Option Fault → FileX → FxFile → Nat → Status × FileX × FxFile
  fxMediaFlush : Option Fault → FileX → Volume → Status × FileX

/-- What the calls do. Nothing is said about a directory that is moved below itself, nor about
what information, open and read report next to the status when they fail. -/
structure Service extends Calls where
  information_fault : ∀ f fx v path, (fxDirectoryInformationGet (some f) fx v path).1 = f.status
  information_missing : ∀ fx v path, fx.find? v path = none →
    (fxDirectoryInformationGet none fx v path).1 = .notFound
  information_entry : ∀ fx v path n, fx.find? v path = some n →
    fxDirectoryInformationGet none fx v path =
      (.success, ⟨if n.directory then 0 else fx.entrySize n.object, n.directory⟩)
  create_fault : ∀ d f fx v path, createEntry d (some f) fx v path = (f.status, fx)
  create_taken : ∀ d fx v path, (fx.find? v path).isSome →
    createEntry d none fx v path = (.alreadyCreated, fx)
  create_orphan : ∀ d fx v path, fx.find? v path = none → ¬ (fx.media v).Free (pathKey path) →
    createEntry d none fx v path = (.invalidPath, fx)
  create_entry : ∀ d fx v path (h : (fx.media v).Free (pathKey path)),
    createEntry d none fx v path = (.success, fx.addEntry v (pathKey path) d h)
  delete_fault : ∀ f fx v path, fxFileDelete (some f) fx v path = (f.status, fx)
  delete_missing : ∀ fx v path, fx.find? v path = none →
    fxFileDelete none fx v path = (.notFound, fx)
  delete_directory : ∀ fx v path n, fx.find? v path = some n → n.directory = true →
    fxFileDelete none fx v path = (.notAFile, fx)
  delete_open : ∀ fx v path n, fx.find? v path = some n → n.directory = false →
    fx.isOpen n.object = true → fxFileDelete none fx v path = (.accessError, fx)
  delete_file : ∀ fx v path n (h : (fx.media v).Leaf (pathKey path)), fx.find? v path = some n →
    n.directory = false → fx.isOpen n.object = false →
    fxFileDelete none fx v path = (.success, fx.setMedia v ((fx.media v).erase (pathKey path) h))
  remove_fault : ∀ f fx v path, fxDirectoryDelete (some f) fx v path = (f.status, fx)
  remove_missing : ∀ fx v path, fx.find? v path = none →
    fxDirectoryDelete none fx v path = (.notFound, fx)
  remove_file : ∀ fx v path n, fx.find? v path = some n → n.directory = false →
    fxDirectoryDelete none fx v path = (.notDirectory, fx)
  remove_nonempty : ∀ fx v path n, fx.find? v path = some n → n.directory = true →
    ¬ (fx.media v).Leaf (pathKey path) → fxDirectoryDelete none fx v path = (.dirNotEmpty, fx)
  remove_directory : ∀ fx v path n (h : (fx.media v).Leaf (pathKey path)),
    fx.find? v path = some n → n.directory = true →
    fxDirectoryDelete none fx v path =
      (.success, fx.setMedia v ((fx.media v).erase (pathKey path) h))
  rename_fault : ∀ d f fx v a b, renameEntry d (some f) fx v a b = (f.status, fx)
  rename_missing : ∀ d fx v a b, fx.find? v a = none →
    renameEntry d none fx v a b = (.notFound, fx)
  rename_other : ∀ d fx v a b n, fx.find? v a = some n → n.directory ≠ d →
    renameEntry d none fx v a b = (if d then .notDirectory else .notAFile, fx)
  /-- A name that differs only in case is not taken by another entry. -/
  rename_entry : ∀ d fx v a b n (h : (fx.media v).Movable (pathKey a) (pathKey b)),
    fx.find? v a = some n → n.directory = d → renameEntry d none fx v a b =
      (.success, fx.setMedia v ((fx.media v).move (pathKey a) (pathKey b) h))
  rename_taken : ∀ d fx v a b n, fx.find? v a = some n → n.directory = d →
    ¬ (fx.media v).Movable (pathKey a) (pathKey b) →
    (d = true → ¬ pathKey a <+: pathKey b) → (fx.find? v b).isSome →
    renameEntry d none fx v a b = (.alreadyCreated, fx)
  rename_orphan : ∀ d fx v a b n, fx.find? v a = some n → n.directory = d →
    ¬ (fx.media v).Movable (pathKey a) (pathKey b) →
    (d = true → ¬ pathKey a <+: pathKey b) → fx.find? v b = none →
    renameEntry d none fx v a b = (.invalidPath, fx)
  find_entries : ∀ fx v path, fxDirectoryEntryFind fx v path = directoryEntries fx v path
  open_fault : ∀ f fx v path mode, ∃ file, fxFileOpen (some f) fx v path mode = (f.status, fx, file)
  open_missing : ∀ fx v path mode, fx.find? v path = none →
    ∃ file, fxFileOpen none fx v path mode = (.notFound, fx, file)
  open_directory : ∀ fx v path mode n, fx.find? v path = some n → n.directory = true →
    ∃ file, fxFileOpen none fx v path mode = (.notAFile, fx, file)
  open_conflict : ∀ fx v path mode n, fx.find? v path = some n → n.directory = false →
    fx.conflicts n.object mode = true →
    ∃ file, fxFileOpen none fx v path mode = (.accessError, fx, file)
  open_file : ∀ fx v path mode n, fx.find? v path = some n → n.directory = false →
    fx.conflicts n.object mode = false → fxFileOpen none fx v path mode =
      (.success,
        { fx with
          opened := ⟨fx.nextHandle, v, n.object, mode⟩ :: fx.opened
          nextHandle := fx.nextHandle + 1 },
        ⟨fx.nextHandle, v, n.object, mode, 0, fx.entrySize n.object⟩)
  close_fault : ∀ f fx file, fxFileClose (some f) fx file = (f.status, fx)
  close_file : ∀ fx file, fxFileClose none fx file = (.success, fx.closed file)
  read_fault : ∀ f fx file length, ∃ bytes,
    fxFileRead (some f) fx file length = (f.status, bytes, file)
  read_end : ∀ fx file length, file.currentFileSize ≤ file.currentFileOffset →
    fxFileRead none fx file length = (.endOfFile, [], file)
  read_file : ∀ fx file length, file.currentFileOffset < file.currentFileSize →
    ∃ actual, actual = ((fx.content file.object).drop file.currentFileOffset).take length ∧
      fxFileRead none fx file length = (.success, actual,
        { file with currentFileOffset := file.currentFileOffset + actual.length })
  write_fault : ∀ f fx file bytes, fxFileWrite (some f) fx file bytes = (f.status, fx, file)
  write_reader : ∀ fx file bytes, file.mode ≠ .write →
    fxFileWrite none fx file bytes = (.accessError, fx, file)
  write_file : ∀ fx file bytes, file.mode = .write → fxFileWrite none fx file bytes =
    (.success,
      { fx with
        content := Function.update fx.content file.object
          (CursorFile.overwrite (fx.content file.object) file.currentFileOffset bytes) },
      { file with
        currentFileOffset := file.currentFileOffset + bytes.length
        currentFileSize := max file.currentFileSize (file.currentFileOffset + bytes.length) })
  seek_fault : ∀ f file target, fxFileExtendedSeek (some f) file target = (f.status, file)
  /-- A seek past the end stops at the end. -/
  seek_file : ∀ file target, fxFileExtendedSeek none file target =
    (.success, { file with currentFileOffset := min target file.currentFileSize })
  truncate_fault : ∀ f fx file size,
    fxFileExtendedTruncateRelease (some f) fx file size = (f.status, fx, file)
  truncate_reader : ∀ fx file size, file.mode ≠ .write →
    fxFileExtendedTruncateRelease none fx file size = (.accessError, fx, file)
  truncate_file : ∀ fx file size, file.mode = .write →
    fxFileExtendedTruncateRelease none fx file size =
      (.success,
        { fx with
          content := Function.update fx.content file.object
            ((fx.content file.object).take size) },
        { file with
          currentFileOffset := min file.currentFileOffset size
          currentFileSize := min file.currentFileSize size })
  flush_fault : ∀ f fx v, fxMediaFlush (some f) fx v = (f.status, fx)
  flush_media : ∀ fx v, fxMediaFlush none fx v = (.success, fx.flushed v)

attribute [simp] Service.information_fault Service.create_fault Service.delete_fault
  Service.remove_fault Service.rename_fault Service.close_fault Service.close_file
  Service.write_fault Service.seek_fault Service.seek_file Service.truncate_fault
  Service.flush_fault Service.flush_media

def Calls.fxFileCreate (x : Calls) := x.createEntry false
def Calls.fxDirectoryCreate (x : Calls) := x.createEntry true
def Calls.fxFileRename (x : Calls) := x.renameEntry false
def Calls.fxDirectoryRename (x : Calls) := x.renameEntry true

/-! A service that obeys the laws. -/

namespace Documented

def fxDirectoryInformationGet (fault : Option Fault) (fx : FileX) (v : Volume) (path : CStr) :
    Status × EntryInformation :=
  match fault with
  | some f => (f.status, {})
  | none =>
    match fx.find? v path with
    | none => (.notFound, {})
    | some n => (.success, ⟨if n.directory then 0 else fx.entrySize n.object, n.directory⟩)

def createEntry (directory : Bool) (fault : Option Fault) (fx : FileX) (v : Volume) (path : CStr) :
    Status × FileX :=
  match fault with
  | some f => (f.status, fx)
  | none =>
    if (fx.find? v path).isSome then (.alreadyCreated, fx)
    else if h : (fx.media v).Free (pathKey path) then
      (.success, fx.addEntry v (pathKey path) directory h)
    else (.invalidPath, fx)

def fxFileDelete (fault : Option Fault) (fx : FileX) (v : Volume) (path : CStr) : Status × FileX :=
  match fault with
  | some f => (f.status, fx)
  | none =>
    match fx.find? v path with
    | none => (.notFound, fx)
    | some n =>
      if n.directory then (.notAFile, fx)
      else if fx.isOpen n.object then (.accessError, fx)
      -- a file has no children, so the last branch is never taken
      else if h : (fx.media v).Leaf (pathKey path) then
        (.success, fx.setMedia v ((fx.media v).erase (pathKey path) h))
      else (.fileCorrupt, fx)

def fxDirectoryDelete (fault : Option Fault) (fx : FileX) (v : Volume) (path : CStr) :
    Status × FileX :=
  match fault with
  | some f => (f.status, fx)
  | none =>
    match fx.find? v path with
    | none => (.notFound, fx)
    | some n =>
      if ¬ n.directory then (.notDirectory, fx)
      else if h : (fx.media v).Leaf (pathKey path) then
        (.success, fx.setMedia v ((fx.media v).erase (pathKey path) h))
      else (.dirNotEmpty, fx)

/-- A directory moved below itself is accepted and its tree is lost. -/
def renameEntry (directory : Bool) (fault : Option Fault) (fx : FileX) (v : Volume)
    (oldPath newPath : CStr) : Status × FileX :=
  match fault with
  | some f => (f.status, fx)
  | none =>
    match fx.find? v oldPath with
    | none => (.notFound, fx)
    | some n =>
      if n.directory ≠ directory then (if directory then .notDirectory else .notAFile, fx)
      else if h : (fx.media v).Movable (pathKey oldPath) (pathKey newPath) then
        (.success, fx.setMedia v ((fx.media v).move (pathKey oldPath) (pathKey newPath) h))
      else if directory && pathKey oldPath <+: pathKey newPath then
        (.success, fx.setMedia v ((fx.media v).prune (pathKey oldPath)))
      else if (fx.find? v newPath).isSome then (.alreadyCreated, fx)
      else (.invalidPath, fx)

def fxFileOpen (fault : Option Fault) (fx : FileX) (v : Volume) (path : CStr) (mode : OpenMode) :
    Status × FileX × FxFile :=
  match fault with
  | some f => (f.status, fx, {})
  | none =>
    match fx.find? v path with
    | none => (.notFound, fx, {})
    | some n =>
      if n.directory then (.notAFile, fx, {})
      else if fx.conflicts n.object mode then (.accessError, fx, {})
      else
        (.success,
          { fx with
            opened := ⟨fx.nextHandle, v, n.object, mode⟩ :: fx.opened
            nextHandle := fx.nextHandle + 1 },
          ⟨fx.nextHandle, v, n.object, mode, 0, fx.entrySize n.object⟩)

def fxFileClose (fault : Option Fault) (fx : FileX) (file : FxFile) : Status × FileX :=
  match fault with
  | some f => (f.status, fx)
  | none => (.success, fx.closed file)

def fxFileRead (fault : Option Fault) (fx : FileX) (file : FxFile) (length : Nat) :
    Status × List UInt8 × FxFile :=
  match fault with
  | some f => (f.status, [], file)
  | none =>
    if file.currentFileOffset ≥ file.currentFileSize then (.endOfFile, [], file)
    else
      let actual := ((fx.content file.object).drop file.currentFileOffset).take length
      (.success, actual,
        { file with currentFileOffset := file.currentFileOffset + actual.length })

def fxFileWrite (fault : Option Fault) (fx : FileX) (file : FxFile) (bytes : List UInt8) :
    Status × FileX × FxFile :=
  match fault with
  | some f => (f.status, fx, file)
  | none =>
    if file.mode ≠ .write then (.accessError, fx, file)
    else
      let stop := file.currentFileOffset + bytes.length
      (.success,
        { fx with
          content := Function.update fx.content file.object
            (CursorFile.overwrite (fx.content file.object) file.currentFileOffset bytes) },
        { file with
          currentFileOffset := stop
          currentFileSize := max file.currentFileSize stop })

def fxFileExtendedSeek (fault : Option Fault) (file : FxFile) (target : Nat) : Status × FxFile :=
  match fault with
  | some f => (f.status, file)
  | none => (.success, { file with currentFileOffset := min target file.currentFileSize })

def fxFileExtendedTruncateRelease (fault : Option Fault) (fx : FileX) (file : FxFile) (size : Nat) :
    Status × FileX × FxFile :=
  match fault with
  | some f => (f.status, fx, file)
  | none =>
    if file.mode ≠ .write then (.accessError, fx, file)
    else
      (.success,
        { fx with
          content := Function.update fx.content file.object
            ((fx.content file.object).take size) },
        { file with
          currentFileOffset := min file.currentFileOffset size
          currentFileSize := min file.currentFileSize size })

def fxMediaFlush (fault : Option Fault) (fx : FileX) (v : Volume) : Status × FileX :=
  match fault with
  | some f => (f.status, fx)
  | none => (.success, fx.flushed v)

end Documented

def filex : Service where
  fxDirectoryInformationGet := Documented.fxDirectoryInformationGet
  createEntry := Documented.createEntry
  fxFileDelete := Documented.fxFileDelete
  fxDirectoryDelete := Documented.fxDirectoryDelete
  renameEntry := Documented.renameEntry
  fxDirectoryEntryFind := directoryEntries
  fxFileOpen := Documented.fxFileOpen
  fxFileClose := Documented.fxFileClose
  fxFileRead := Documented.fxFileRead
  fxFileWrite := Documented.fxFileWrite
  fxFileExtendedSeek := Documented.fxFileExtendedSeek
  fxFileExtendedTruncateRelease := Documented.fxFileExtendedTruncateRelease
  fxMediaFlush := Documented.fxMediaFlush
  information_fault _ _ _ _ := rfl
  information_missing _ _ _ h := by simp only [Documented.fxDirectoryInformationGet, h]
  information_entry _ _ _ _ h := by simp only [Documented.fxDirectoryInformationGet, h]
  create_fault _ _ _ _ _ := rfl
  create_taken _ _ _ _ h := by simp only [Documented.createEntry, if_pos h]
  create_orphan _ _ _ _ h hfree := by
    simp only [Documented.createEntry, h, Option.isSome_none, Bool.false_eq_true, if_false,
      dif_neg hfree]
  create_entry _ fx v path h := by
    have hnone : fx.find? v path = none := h.2.1
    simp only [Documented.createEntry, hnone, Option.isSome_none, Bool.false_eq_true, if_false,
      dif_pos h]
  delete_fault _ _ _ _ := rfl
  delete_missing _ _ _ h := by simp only [Documented.fxFileDelete, h]
  delete_directory _ _ _ _ h hd := by simp only [Documented.fxFileDelete, h, hd, if_true]
  delete_open _ _ _ _ h hd ho := by
    simp only [Documented.fxFileDelete, h, hd, ho, Bool.false_eq_true, if_false, if_true]
  delete_file _ _ _ _ hl h hd ho := by
    simp only [Documented.fxFileDelete, h, hd, ho, Bool.false_eq_true, if_false, dif_pos hl]
  remove_fault _ _ _ _ := rfl
  remove_missing _ _ _ h := by simp only [Documented.fxDirectoryDelete, h]
  remove_file _ _ _ _ h hd := by
    simp only [Documented.fxDirectoryDelete, h, hd, Bool.false_eq_true, not_false_eq_true, if_true]
  remove_nonempty _ _ _ _ h hd hl := by
    simp only [Documented.fxDirectoryDelete, h, hd, not_true, if_false, dif_neg hl]
  remove_directory _ _ _ _ hl h hd := by
    simp only [Documented.fxDirectoryDelete, h, hd, not_true, if_false, dif_pos hl]
  rename_fault _ _ _ _ _ _ := rfl
  rename_missing _ _ _ _ _ h := by simp only [Documented.renameEntry, h]
  rename_other _ _ _ _ _ _ h hd := by simp only [Documented.renameEntry, h, if_pos hd]
  rename_entry _ _ _ _ _ _ hm h hd := by
    simp only [Documented.renameEntry, h, hd, ne_eq, not_true, if_false, dif_pos hm]
  rename_taken _ _ _ _ _ _ h hd hm hb ht := by
    simp only [Documented.renameEntry, h, hd, ne_eq, not_true, if_false, dif_neg hm, ht, if_true,
      Bool.and_eq_true, decide_eq_true_eq]
    exact if_neg fun ⟨hdir, hbelow⟩ => hb hdir hbelow
  rename_orphan _ _ _ _ _ _ h hd hm hb ht := by
    simp only [Documented.renameEntry, h, hd, ne_eq, not_true, if_false, dif_neg hm, ht,
      Option.isSome_none, Bool.false_eq_true, Bool.and_eq_true, decide_eq_true_eq]
    exact if_neg fun ⟨hdir, hbelow⟩ => hb hdir hbelow
  find_entries _ _ _ := rfl
  open_fault _ _ _ _ _ := ⟨{}, rfl⟩
  open_missing _ _ _ _ h := ⟨{}, by simp only [Documented.fxFileOpen, h]⟩
  open_directory _ _ _ _ _ h hd := ⟨{}, by simp only [Documented.fxFileOpen, h, hd, if_true]⟩
  open_conflict _ _ _ _ _ h hd hc := ⟨{}, by
    simp only [Documented.fxFileOpen, h, hd, hc, Bool.false_eq_true, if_false, if_true]⟩
  open_file _ _ _ _ _ h hd hc := by
    simp only [Documented.fxFileOpen, h, hd, hc, Bool.false_eq_true, if_false]
  close_fault _ _ _ := rfl
  close_file _ _ := rfl
  read_fault _ _ _ _ := ⟨[], rfl⟩
  read_end _ _ _ h := by simp only [Documented.fxFileRead, ge_iff_le, if_pos h]
  read_file _ _ _ h := ⟨_, rfl, by simp only [Documented.fxFileRead, ge_iff_le, if_neg (not_le.mpr h)]⟩
  write_fault _ _ _ _ := rfl
  write_reader _ _ _ h := by simp only [Documented.fxFileWrite, if_pos h]
  write_file _ _ _ h := by simp only [Documented.fxFileWrite, h, ne_eq, not_true, if_false]
  seek_fault _ _ _ := rfl
  seek_file _ _ := rfl
  truncate_fault _ _ _ _ := rfl
  truncate_reader _ _ _ h := by simp only [Documented.fxFileExtendedTruncateRelease, if_pos h]
  truncate_file _ _ _ h := by
    simp only [Documented.fxFileExtendedTruncateRelease, h, ne_eq, not_true, if_false]
  flush_fault _ _ _ := rfl
  flush_media _ _ := rfl

end SimPLCity.FileXVolume
