import Mathlib.Data.Fin.Basic
import Mathlib.Data.List.FinRange
import SimPLCity.FileXVolume
import Mathlib.Algebra.Group.Nat.Defs

/-! The adapter's registry and the calls on descriptors: open, close, read, write,
lseek, fstat and ftruncate. The registry mutex makes each call one step. `Outcomes`
chooses for every FileX call a libc call makes whether it fails on its own account.
Descriptors 0, 1 and 2 are the console and never touch this state. -/

namespace SimPLCity.FileDescriptors
open PathText FileXVolume PathTree

abbrev maximumOpenFiles : Nat := 16
abbrev maximumOpenDirectories : Nat := 8
def firstFileDescriptor : Int := 3

structure ResolvedPath where
  volume : Volume := .flash
  localPath : CStr := []
  virtualRoot : Bool := false
  mountRoot : Bool := false
deriving DecidableEq, Repr

/-- A null pointer for the virtual root. -/
def ResolvedPath.media (r : ResolvedPath) : Option Volume :=
  if r.virtualRoot then none else some r.volume

structure FileDescriptor where
  file : FxFile := {}
  path : CStr := []
  position : Nat := 0
  allocated : Bool := false
  readable : Bool := false
  writable : Bool := false
  append : Bool := false
  openMode : Option OpenMode := none
deriving DecidableEq, Repr

structure DirectoryStream where
  allocated : Bool := false
  path : CStr := []
deriving DecidableEq, Repr

/-- `mounted` and `maximumOffset`, the largest `off_t`, never change after initialisation.
On Linux there are no directory streams and none is ever allocated. -/
structure FileSystem where
  fx : FileX
  mounted : Volume → Bool
  maximumOffset : Nat
  descriptors : Fin maximumOpenFiles → FileDescriptor
  directories : Fin maximumOpenDirectories → DirectoryStream
  currentDirectory : CStr
  renameBackupSequence : Nat

/-- The places at which a libc call calls FileX. -/
inductive Call
  | information | destinationInformation | backupInformation (attempt : Nat)
  | fileCreate | fileOpen | modeSeek | switchClose | fileClose
  | fileRead | fileWrite | appendSeek | seek
  | truncate | growSeek | zeroWrite (chunk : Nat) | truncateSeek
  | fileDelete | directoryCreate | directoryDelete
  | defaultSet | entryFind (index : Nat) | defaultReset | mediaFlush
  | renameBackup | renameSource | renameRestore | deleteBackup
deriving DecidableEq, Repr

/-- What FileX does in a libc call, and which of its calls fail on their own account. -/
structure Outcomes extends Service where
  fault : Call → Option Fault

instance : CoeFun Outcomes fun _ => Call → Option Fault := ⟨Outcomes.fault⟩

instance : Coe Outcomes Service := ⟨Outcomes.toService⟩

def mountName : Volume → CStr
  | .flash => ['/', 'f', 'l', 'a', 's', 'h']
  | .sd => ['/', 's', 'd']

def resolveNormalizedPath (mounted : Volume → Bool) (normalized : CStr) :
    Except Errno ResolvedPath :=
  if normalized = ['/'] then .ok { localPath := ['/'], virtualRoot := true }
  else
    match [Volume.flash, Volume.sd].find? fun v => pathHasPrefix normalized (mountName v) true with
    | none => .error .enoent
    | some v =>
      if ¬ mounted v then .error .enodev
      else
        let rest := normalized.drop (mountName v).length
        .ok {
          volume := v
          mountRoot := rest = []
          localPath := if rest = [] then ['/'] else rest }

def resolvePathUnlocked (fs : FileSystem) (path : CStr) : Except Errno (CStr × ResolvedPath) := do
  let normalized ← normalizePathUnlocked fs.currentDirectory path
  let resolved ← resolveNormalizedPath fs.mounted normalized
  .ok (normalized, resolved)

def informationUnlocked (x : Service) (fault : Option Fault) (fs : FileSystem) (path : CStr) :
    Except Errno EntryInformation := do
  let normalized ← normalizePathUnlocked fs.currentDirectory path
  if normalized = ['/'] then .ok { directory := true }
  else do
    let resolved ← resolveNormalizedPath fs.mounted normalized
    if resolved.mountRoot then .ok { directory := true }
    else
      match x.fxDirectoryInformationGet fault fs.fx resolved.volume resolved.localPath with
      | (.success, info) => .ok info
      | (status, _) => .error ((filexErrno status).getD .eio)

/-- Leaves the descriptor without a FileX handle, also when the close fails. -/
def closeForSwitch (o : Outcomes) (fx : FileX) (d : FileDescriptor) :
    FileX × FileDescriptor × Option Errno :=
  match d.openMode with
  | none => (fx, d, none)
  | some _ =>
    let closed := o.fxFileClose (o .switchClose) fx d.file
    (closed.2, { d with position := d.file.currentFileOffset, openMode := none },
      if closed.1 = .success then none else filexErrno closed.1)

def reopen (o : Outcomes) (mounted : Volume → Bool) (fx : FileX) (d : FileDescriptor)
    (mode : OpenMode) : FileX × FileDescriptor × Option Errno :=
  let d := { d with file := {} }
  match resolveNormalizedPath mounted d.path with
  | .error e => (fx, d, some e)
  | .ok r =>
    if r.virtualRoot || r.mountRoot then (fx, d, some .eisdir)
    else
      let opened := o.fxFileOpen (o .fileOpen) fx r.volume r.localPath mode
      if opened.1 ≠ .success then (opened.2.1, d, filexErrno opened.1)
      else
        let sought := o.fxFileExtendedSeek (o .modeSeek) opened.2.2 d.position
        (opened.2.1, { d with file := sought.2, openMode := some mode }, filexErrno sought.1)

def switchMode (o : Outcomes) (mounted : Volume → Bool) (fx : FileX) (d : FileDescriptor)
    (mode : OpenMode) : FileX × FileDescriptor × Option Errno :=
  if d.openMode = some mode then (fx, d, none)
  else
    match closeForSwitch o fx d with
    | (fx, d, some e) => (fx, d, some e)
    | (fx, d, none) => reopen o mounted fx d mode

def slotOf (file : Int) : Option (Fin maximumOpenFiles) :=
  if h : 0 ≤ file - firstFileDescriptor ∧ file - firstFileDescriptor < maximumOpenFiles then
    some ⟨(file - firstFileDescriptor).toNat, by omega⟩
  else none

/-- The allocated slot of a descriptor number, else EBADF. -/
def descriptorFor (fs : FileSystem) (file : Int) : Option (Fin maximumOpenFiles) :=
  (slotOf file).filter fun i => (fs.descriptors i).allocated

def fileNumber (i : Fin maximumOpenFiles) : Int := firstFileDescriptor + i.val

def FileSystem.setDescriptor (fs : FileSystem) (i : Fin maximumOpenFiles) (fx : FileX)
    (d : FileDescriptor) : FileSystem :=
  { fs with fx := fx, descriptors := Function.update fs.descriptors i d }

inductive Access
  | rdonly | wronly | rdwr
deriving DecidableEq, Repr

structure OpenFlags where
  access : Access
  creat : Bool := false
  excl : Bool := false
  trunc : Bool := false
  append : Bool := false
deriving DecidableEq, Repr

def newDescriptor (flags : OpenFlags) (normalized : CStr) (info : EntryInformation) :
    FileDescriptor where
  allocated := true
  readable := flags.access ≠ .wronly
  writable := flags.access ≠ .rdonly
  append := flags.append
  path := normalized
  position := if flags.append then info.size else 0

/-- Opens the handle of a new descriptor and truncates it if asked to. -/
def openDescriptor (o : Outcomes) (fs : FileSystem) (fx : FileX) (flags : OpenFlags)
    (d : FileDescriptor) : FileX × FileDescriptor × Option Errno :=
  match switchMode o fs.mounted fx d (if d.writable then .write else .read) with
  | (fx, d, some e) => (fx, d, some e)
  | (fx, d, none) =>
    if d.writable && flags.trunc then
      let truncated := o.fxFileExtendedTruncateRelease (o .truncate) fx d.file 0
      (truncated.2.1, { d with file := truncated.2.2, position := 0 }, filexErrno truncated.1)
    else (fx, d, none)

/-- Existing entry, or `none` for a new file. -/
def openChecks (o : Outcomes) (fs : FileSystem) (path : CStr) (flags : OpenFlags) :
    Except Errno (CStr × ResolvedPath × Fin maximumOpenFiles × Option EntryInformation) := do
  let (normalized, resolved) ← resolvePathUnlocked fs path
  if resolved.virtualRoot || resolved.mountRoot then .error .eisdir
  else
    match (List.finRange maximumOpenFiles).find? fun i => ¬ (fs.descriptors i).allocated with
    | none => .error .emfile
    | some slot =>
      match informationUnlocked o (o .information) fs normalized with
      | .ok info =>
        if info.directory then .error .eisdir
        else if flags.creat && flags.excl then .error .eexist
        else .ok (normalized, resolved, slot, some info)
      | .error e =>
        if e ≠ .enoent then .error e
        else if ¬ flags.creat then .error e
        else .ok (normalized, resolved, slot, none)

def createMissing (o : Outcomes) (fs : FileSystem) (r : ResolvedPath) :
    Option EntryInformation → Status × FileX
  | some _ => (.success, fs.fx)
  | none => o.fxFileCreate (o .fileCreate) fs.fx r.volume r.localPath

def sysOpen (o : Outcomes) (fs : FileSystem) (path : CStr) (flags : OpenFlags) :
    FileSystem × Except Errno Int :=
  match openChecks o fs path flags with
  | .error e => (fs, .error e)
  | .ok (normalized, resolved, slot, info) =>
    let created := createMissing o fs resolved info
    if created.1 ≠ .success then (fs, .error ((filexErrno created.1).getD .eio))
    else
      let d := newDescriptor flags normalized (info.getD { directory := false })
      match openDescriptor o fs created.2 flags d with
      | (fx, d, none) => (fs.setDescriptor slot fx d, .ok (fileNumber slot))
      | (fx, d, some e) =>
        -- the handle is closed again and the slot given back; the new entry stays
        let fx := if d.openMode.isSome then (o.fxFileClose (o .fileClose) fx d.file).2 else fx
        (fs.setDescriptor slot fx {}, .error e)

def sysClose (o : Outcomes) (fs : FileSystem) (file : Int) : FileSystem × Except Errno Unit :=
  if 0 ≤ file ∧ file ≤ 2 then (fs, .ok ())
  else
    match descriptorFor fs file with
    | none => (fs, .error .ebadf)
    | some i =>
      let d := fs.descriptors i
      let closed :=
        if d.openMode.isSome then o.fxFileClose (o .fileClose) fs.fx d.file else (.success, fs.fx)
      (fs.setDescriptor i closed.2 {},
        if closed.1 = .success then .ok () else .error ((filexErrno closed.1).getD .eio))

def sysRead (o : Outcomes) (fs : FileSystem) (file : Int) (length : Int) :
    FileSystem × Except Errno (List UInt8) :=
  if length < 0 then (fs, .error .einval)
  else
    match descriptorFor fs file with
    | none => (fs, .error .ebadf)
    | some i =>
      if ¬ (fs.descriptors i).readable then (fs, .error .ebadf)
      else if length = 0 then (fs, .ok [])
      else
        match switchMode o fs.mounted fs.fx (fs.descriptors i) .read with
        | (fx, d, some e) => (fs.setDescriptor i fx d, .error e)
        | (fx, d, none) =>
          let got := o.fxFileRead (o .fileRead) fx d.file length.toNat
          let d := { d with file := got.2.2, position := got.2.2.currentFileOffset }
          (fs.setDescriptor i fx d,
            if got.1 ≠ .success && got.1 ≠ .endOfFile then .error ((filexErrno got.1).getD .eio)
            else .ok got.2.1)

/-- An append descriptor first goes to the end of the file. -/
def positionForWrite (o : Outcomes) (d : FileDescriptor) : FileDescriptor × Option Errno :=
  if d.append then
    let position := d.file.currentFileSize
    let sought := o.fxFileExtendedSeek (o .appendSeek) d.file position
    ({ d with position := position, file := sought.2 }, filexErrno sought.1)
  else (d, none)

def sysWrite (o : Outcomes) (fs : FileSystem) (file : Int) (buffer : List UInt8) :
    FileSystem × Except Errno Nat :=
  match descriptorFor fs file with
  | none => (fs, .error .ebadf)
  | some i =>
    if ¬ (fs.descriptors i).writable then (fs, .error .ebadf)
    else if buffer.length = 0 then (fs, .ok 0)
    else
      match switchMode o fs.mounted fs.fx (fs.descriptors i) .write with
      | (fx, d, some e) => (fs.setDescriptor i fx d, .error e)
      | (fx, d, none) =>
        match positionForWrite o d with
        | (d, some e) => (fs.setDescriptor i fx d, .error e)
        | (d, none) =>
          let put := o.fxFileWrite (o .fileWrite) fx d.file buffer
          let d := { d with file := put.2.2, position := put.2.2.currentFileOffset }
          (fs.setDescriptor i put.2.1 d,
            if put.1 ≠ .success then .error ((filexErrno put.1).getD .eio)
            else .ok buffer.length)

inductive Origin
  | set | cur | end | other
deriving DecidableEq, Repr

/-- Base and signed offset, both tested against the range of `off_t` before they are added. -/
def seekTarget (maximumOffset base : Nat) (offset : Int) : Except Errno Nat :=
  if base > maximumOffset then .error .eoverflow
  else if offset ≥ 0 then
    if offset.toNat > maximumOffset - base then .error .eoverflow
    else .ok (base + offset.toNat)
  else
    let magnitude := (-(offset + 1)).toNat + 1
    if magnitude > base then .error .einval else .ok (base - magnitude)

def seekBase (d : FileDescriptor) : Origin → Option Nat
  | .set => some 0
  | .cur => some d.position
  | .end => some d.file.currentFileSize
  | .other => none

def sysLseek (o : Outcomes) (fs : FileSystem) (file : Int) (offset : Int) (origin : Origin) :
    FileSystem × Except Errno Nat :=
  match descriptorFor fs file with
  | none => (fs, .error .ebadf)
  | some i =>
    let d := fs.descriptors i
    let reopened :=
      if d.openMode = none then
        switchMode o fs.mounted fs.fx d (if d.readable then .read else .write)
      else (fs.fx, d, none)
    match reopened with
    | (fx, d, some e) => (fs.setDescriptor i fx d, .error e)
    | (fx, d, none) =>
      let fs := fs.setDescriptor i fx d
      match seekBase d origin with
      | none => (fs, .error .einval)
      | some base =>
        match seekTarget fs.maximumOffset base offset with
        | .error e => (fs, .error e)
        | .ok target =>
          let sought := o.fxFileExtendedSeek (o .seek) d.file target
          if sought.1 ≠ .success then (fs, .error ((filexErrno sought.1).getD .eio))
          else (fs.setDescriptor i fx { d with file := sought.2, position := target }, .ok target)

/-- The part of `struct stat` that depends on the entry. -/
structure Stat where
  directory : Bool
  inode : Nat
  size : Nat
  blocks : Nat
deriving DecidableEq, Repr

def sectorSize : Nat := 512

def inodeOf (path : CStr) : Nat :=
  path.foldl (fun inode c => (inode ^^^ (foldAsciiCase c).toNat) * 16777619 % 2 ^ 32) 2166136261

def fillStat (path : CStr) (info : EntryInformation) : Stat :=
  ⟨info.directory, inodeOf path, info.size, (info.size + sectorSize - 1) / sectorSize⟩

def sysFstat (o : Outcomes) (fs : FileSystem) (file : Int) : Except Errno Stat :=
  match descriptorFor fs file with
  | none => .error .ebadf
  | some i => do
    let d := fs.descriptors i
    let info ← informationUnlocked o (o .information) fs d.path
    let info := if d.openMode.isSome then { info with size := d.file.currentFileSize } else info
    .ok (fillStat d.path info)

/-- Chunks of at most 64 zero bytes until `remaining` is used up; `fuel` is `remaining`. -/
def writeZeroes (o : Outcomes) (fx : FileX) (file : FxFile) :
    (fuel chunk remaining : Nat) → FileX × FxFile × Option Errno
  | 0, _, _ => (fx, file, none)
  | fuel + 1, chunk, remaining =>
    if remaining = 0 then (fx, file, none)
    else
      let size := min remaining 64
      let put := o.fxFileWrite (o (.zeroWrite chunk)) fx file (List.replicate size 0)
      match filexErrno put.1 with
      | some e => (put.2.1, put.2.2, some e)
      | none => writeZeroes o put.2.1 put.2.2 fuel (chunk + 1) (remaining - size)

def resizeFile (o : Outcomes) (fx : FileX) (file : FxFile) (length : Nat) :
    FileX × FxFile × Option Errno :=
  let originalSize := file.currentFileSize
  if length < originalSize then
    let cut := o.fxFileExtendedTruncateRelease (o .truncate) fx file length
    (cut.2.1, cut.2.2, filexErrno cut.1)
  else if length > originalSize then
    let sought := o.fxFileExtendedSeek (o .growSeek) file originalSize
    match filexErrno sought.1 with
    | some e => (fx, sought.2, some e)
    | none => writeZeroes o fx sought.2 (length - originalSize) 0 (length - originalSize)
  else (fx, file, none)

def sysFtruncate (o : Outcomes) (fs : FileSystem) (file : Int) (length : Int) :
    FileSystem × Except Errno Unit :=
  if length < 0 then (fs, .error .einval)
  else
    match descriptorFor fs file with
    | none => (fs, .error .ebadf)
    | some i =>
      if ¬ (fs.descriptors i).writable then (fs, .error .ebadf)
      else
        match switchMode o fs.mounted fs.fx (fs.descriptors i) .write with
        | (fx, d, some e) => (fs.setDescriptor i fx d, .error e)
        | (fx, d, none) =>
          match resizeFile o fx d.file length.toNat with
          | (fx, file, some e) => (fs.setDescriptor i fx { d with file := file }, .error e)
          | (fx, file, none) =>
            let position := min d.position length.toNat
            let sought := o.fxFileExtendedSeek (o .truncateSeek) file position
            (fs.setDescriptor i fx { d with file := sought.2, position := position },
              match filexErrno sought.1 with
              | some e => .error e
              | none => .ok ())

end SimPLCity.FileDescriptors
