import SimPLCity.FileDescriptors

/-! The calls on names: unlink, rename, mkdir, rmdir and chdir, and one system call
as a step of the whole adapter. FileX cannot replace an existing entry on rename, so
`sysRename` backs the destination up under a reserved name, renames the source and
then deletes the backup, or restores it when the source rename fails. -/

namespace SimPLCity.FileNamespace
open PathText FileXVolume PathTree FileDescriptors

def renameEntryUnlocked (x : Service) (fault : Option Fault) (fs : FileSystem) (directory : Bool)
    (oldPath newPath : CStr) : FileSystem × Option Errno :=
  match resolveNormalizedPath fs.mounted oldPath, resolveNormalizedPath fs.mounted newPath with
  | .error e, _ => (fs, some e)
  | .ok _, .error e => (fs, some e)
  | .ok old, .ok new =>
    if old.media ≠ new.media then (fs, some .exdev)
    else
      let renamed :=
        if directory then x.fxDirectoryRename fault fs.fx old.volume old.localPath new.localPath
        else x.fxFileRename fault fs.fx old.volume old.localPath new.localPath
      ({ fs with fx := renamed.2 }, filexErrno renamed.1)

def deleteEntryUnlocked (x : Service) (fault : Option Fault) (fs : FileSystem) (directory : Bool)
    (path : CStr) : FileSystem × Option Errno :=
  match resolveNormalizedPath fs.mounted path with
  | .error e => (fs, some e)
  | .ok r =>
    let deleted :=
      if directory then x.fxDirectoryDelete fault fs.fx r.volume r.localPath
      else x.fxFileDelete fault fs.fx r.volume r.localPath
    ({ fs with fx := deleted.2 }, filexErrno deleted.1)

/-- The status at which the entry search stops, `.` and `..` being skipped. -/
def searchEntries (o : Outcomes) : Nat → List Name → Status
  | k, [] =>
    match o (.entryFind k) with
    | some f => f.status
    | none => .noMoreEntries
  | k, name :: rest =>
    match o (.entryFind k) with
    | some f => f.status
    | none => if name = ['.'] || name = ['.', '.'] then searchEntries o (k + 1) rest else .success

def requireEmptyDirectoryUnlocked (o : Outcomes) (fs : FileSystem) (path : CStr) :
    Option Errno :=
  match resolveNormalizedPath fs.mounted path with
  | .error e => some e
  | .ok r =>
    let error :=
      match o .defaultSet with
      | some f => filexErrno f.status
      | none =>
        match searchEntries o 0 (o.fxDirectoryEntryFind fs.fx r.volume r.localPath) with
        | .noMoreEntries => none
        | .success => some .enotempty
        | status => filexErrno status
    let resetError := (o .defaultReset).bind fun f => filexErrno f.status
    error.or resetError

def hexadecimal (digit : Nat) : Char :=
  ['0', '1', '2', '3', '4', '5', '6', '7', '8', '9', 'A', 'B', 'C', 'D', 'E', 'F'].getD
    (digit % 16) '0'

/-- `/FXR00000.TMP` with five hexadecimal digits of the sequence number. -/
def backupName (v : Volume) (sequence : Nat) : CStr :=
  mountName v ++ ['/', 'F', 'X', 'R'] ++
    [4, 3, 2, 1, 0].map (fun digit => hexadecimal (sequence / 16 ^ digit)) ++
    ['.', 'T', 'M', 'P']

/-- Candidates in order of the sequence number, until one names no entry. -/
def findRenameBackupUnlocked (o : Outcomes) (fs : FileSystem) (v : Volume) :
    (attempts attempt : Nat) → FileSystem × Except Errno CStr
  | 0, attempt =>
    ({ fs with renameBackupSequence := (fs.renameBackupSequence + attempt) % 2 ^ 32 },
      .error .enospc)
  | attempts + 1, attempt =>
    let output := backupName v ((fs.renameBackupSequence + attempt) % 2 ^ 20)
    let next := { fs with renameBackupSequence := (fs.renameBackupSequence + attempt + 1) % 2 ^ 32 }
    match informationUnlocked o (o (.backupInformation attempt)) fs output with
    | .error .enoent => (next, .ok output)
    | .error e => (next, .error e)
    | .ok _ => findRenameBackupUnlocked o fs v attempts (attempt + 1)

/-- What the checks before the first change of the volume have found out. -/
structure RenamePlan where
  oldName : CStr
  newName : CStr
  volume : Volume
  sourceIsDirectory : Bool
  destinationExists : Bool
  destinationIsDirectory : Bool
deriving DecidableEq, Repr

def RenamePlan.spellingChanged (p : RenamePlan) : Bool := p.oldName ≠ p.newName
def RenamePlan.destinationIsSource (p : RenamePlan) : Bool := pathsEqual p.oldName p.newName
def RenamePlan.replaces (p : RenamePlan) : Bool := p.destinationExists && !p.destinationIsSource

/-- Would any path stored in the adapter outgrow its array? -/
def migrationTooLong (fs : FileSystem) (oldName newName : CStr) (directory : Bool) : Bool :=
  decide (∃ i, (fs.descriptors i).allocated ∧
    migratedPathLength (fs.descriptors i).path oldName newName directory ≥ maximumPath) ||
  (directory && decide (migratedPathLength fs.currentDirectory oldName newName true ≥ maximumPath)) ||
  (directory && decide (∃ i, (fs.directories i).allocated ∧
    migratedPathLength (fs.directories i).path oldName newName true ≥ maximumPath))

/-- Is `newName`, or something below it, the current directory or an allocated descriptor? -/
def destinationBusy (fs : FileSystem) (newName : CStr) (directory : Bool) : Bool :=
  (directory && pathHasPrefix fs.currentDirectory newName true) ||
  decide (∃ i, (fs.descriptors i).allocated ∧
    pathHasPrefix (fs.descriptors i).path newName directory)

/-- Whether the destination exists and is a directory, with the tests made of it. -/
def destinationChecks (o : Outcomes) (fs : FileSystem) (oldName newName : CStr)
    (sourceIsDirectory : Bool) : Except Errno (Bool × Bool) :=
  if oldName = newName then .ok (false, false)
  else
    match informationUnlocked o (o .destinationInformation) fs newName with
    | .ok info =>
      if sourceIsDirectory ≠ info.directory then
        .error (if sourceIsDirectory then .enotdir else .eisdir)
      else if ¬ pathsEqual oldName newName && destinationBusy fs newName info.directory then
        .error .ebusy
      else .ok (true, info.directory)
    | .error .enoent => .ok (false, false)
    | .error e => .error e

def renameChecks (o : Outcomes) (fs : FileSystem) (oldPath newPath : CStr) :
    Except Errno RenamePlan := do
  let (oldName, oldResolved) ← resolvePathUnlocked fs oldPath
  let (newName, newResolved) ← resolvePathUnlocked fs newPath
  let info ← informationUnlocked o (o .information) fs oldName
  if oldResolved.virtualRoot || oldResolved.mountRoot || newResolved.virtualRoot ||
      newResolved.mountRoot then .error .ebusy
  else if oldResolved.media ≠ newResolved.media then .error .exdev
  else if info.directory && !pathsEqual oldName newName && pathHasPrefix newName oldName true then
    .error .einval
  else if migrationTooLong fs oldName newName info.directory then .error .enametoolong
  else do
    let (exists?, directory) ← destinationChecks o fs oldName newName info.directory
    let plan : RenamePlan :=
      ⟨oldName, newName, oldResolved.volume, info.directory, exists?, directory⟩
    if plan.replaces && directory then
      match requireEmptyDirectoryUnlocked o fs newName with
      | some e => .error e
      | none => .ok plan
    else .ok plan

/-- Modified source handles are flushed before their directory entry is copied. -/
def flushSource (o : Outcomes) (fs : FileSystem) (p : RenamePlan) : FileSystem × Option Errno :=
  if p.spellingChanged && decide (∃ i, (fs.descriptors i).allocated ∧
      (fs.descriptors i).openMode.isSome ∧
      pathHasPrefix (fs.descriptors i).path p.oldName p.sourceIsDirectory) then
    let flushed := o.fxMediaFlush (o .mediaFlush) fs.fx p.volume
    ({ fs with fx := flushed.2 }, filexErrno flushed.1)
  else (fs, none)

/-- The backup name, if the destination has to make room. -/
def backUpDestination (o : Outcomes) (fs : FileSystem) (p : RenamePlan) :
    FileSystem × Except Errno (Option CStr) :=
  if p.replaces then
    match findRenameBackupUnlocked o fs p.volume 256 0 with
    | (fs, .error e) => (fs, .error e)
    | (fs, .ok backup) =>
      match renameEntryUnlocked o (o .renameBackup) fs p.destinationIsDirectory p.newName backup with
      | (fs, some e) => (fs, .error e)
      | (fs, none) => (fs, .ok (some backup))
  else (fs, .ok none)

/-- A failure to restore is the error that is reported. -/
def restoreDestination (o : Outcomes) (fs : FileSystem) (p : RenamePlan) (backup : Option CStr)
    (error : Errno) : FileSystem × Option Errno :=
  match backup with
  | none => (fs, some error)
  | some backup =>
    match renameEntryUnlocked o (o .renameRestore) fs p.destinationIsDirectory backup p.newName with
    | (fs, some e) => (fs, some e)
    | (fs, none) => (fs, some error)

def deleteBackup (o : Outcomes) (fs : FileSystem) (p : RenamePlan) (backup : Option CStr) :
    FileSystem × Option Errno :=
  match backup with
  | none => (fs, none)
  | some backup => deleteEntryUnlocked o (o .deleteBackup) fs p.destinationIsDirectory backup

/-- The tables of stored paths follow the renamed source. -/
def migratePaths (fs : FileSystem) (p : RenamePlan) : FileSystem :=
  { fs with
    descriptors := fun i =>
      let d := fs.descriptors i
      if d.allocated then
        { d with path := migratePath d.path p.oldName p.newName p.sourceIsDirectory }
      else d
    currentDirectory :=
      if p.sourceIsDirectory then migratePath fs.currentDirectory p.oldName p.newName true
      else fs.currentDirectory
    directories := fun i =>
      let s := fs.directories i
      if p.sourceIsDirectory && s.allocated then
        { s with path := migratePath s.path p.oldName p.newName true }
      else s }

def renameSource (o : Outcomes) (fs : FileSystem) (p : RenamePlan) (backup : Option CStr) :
    FileSystem × Option Errno :=
  match renameEntryUnlocked o (o .renameSource) fs p.sourceIsDirectory p.oldName p.newName with
  | (fs, some e) => restoreDestination o fs p backup e
  | (fs, none) =>
    let deleted := deleteBackup o fs p backup
    -- the source has been renamed, so the paths migrate even if the backup stays
    (migratePaths deleted.1 p, deleted.2)

def renameCommit (o : Outcomes) (fs : FileSystem) (p : RenamePlan) : FileSystem × Option Errno :=
  match flushSource o fs p with
  | (fs, some e) => (fs, some e)
  | (fs, none) =>
    match backUpDestination o fs p with
    | (fs, .error e) => (fs, some e)
    | (fs, .ok backup) => if p.spellingChanged then renameSource o fs p backup else (fs, none)

def errorOf : Option Errno → Except Errno Unit
  | none => .ok ()
  | some e => .error e

def sysRename (o : Outcomes) (fs : FileSystem) (oldPath newPath : CStr) :
    FileSystem × Except Errno Unit :=
  match renameChecks o fs oldPath newPath with
  | .error e => (fs, .error e)
  | .ok plan =>
    let renamed := renameCommit o fs plan
    (renamed.1, errorOf renamed.2)

def sysUnlink (o : Outcomes) (fs : FileSystem) (path : CStr) : FileSystem × Except Errno Unit :=
  match resolvePathUnlocked fs path with
  | .error e => (fs, .error e)
  | .ok (normalized, resolved) =>
    match informationUnlocked o (o .information) fs normalized with
    | .error e => (fs, .error e)
    | .ok info =>
      if info.directory then (fs, .error .eisdir)
      else if resolved.virtualRoot || resolved.mountRoot then (fs, .error .ebusy)
      else
        let deleted := o.fxFileDelete (o .fileDelete) fs.fx resolved.volume resolved.localPath
        ({ fs with fx := deleted.2 }, errorOf (filexErrno deleted.1))

def sysMkdir (o : Outcomes) (fs : FileSystem) (path : CStr) : FileSystem × Except Errno Unit :=
  match resolvePathUnlocked fs path with
  | .error e => (fs, .error e)
  | .ok (_, resolved) =>
    if resolved.virtualRoot || resolved.mountRoot then (fs, .error .eexist)
    else
      let created := o.fxDirectoryCreate (o .directoryCreate) fs.fx resolved.volume resolved.localPath
      ({ fs with fx := created.2 }, errorOf (filexErrno created.1))

def sysRmdir (o : Outcomes) (fs : FileSystem) (path : CStr) : FileSystem × Except Errno Unit :=
  match resolvePathUnlocked fs path with
  | .error e => (fs, .error e)
  | .ok (normalized, resolved) =>
    match informationUnlocked o (o .information) fs normalized with
    | .error e => (fs, .error e)
    | .ok info =>
      if ¬ info.directory then (fs, .error .enotdir)
      else if resolved.virtualRoot || resolved.mountRoot then (fs, .error .ebusy)
      else if pathHasPrefix fs.currentDirectory normalized true then (fs, .error .ebusy)
      else
        let deleted :=
          o.fxDirectoryDelete (o .directoryDelete) fs.fx resolved.volume resolved.localPath
        ({ fs with fx := deleted.2 }, errorOf (filexErrno deleted.1))

/-- `setCurrentPath`. -/
def sysChdir (o : Outcomes) (fs : FileSystem) (path : CStr) : FileSystem × Except Errno Unit :=
  match normalizePathUnlocked fs.currentDirectory path with
  | .error e => (fs, .error e)
  | .ok normalized =>
    match informationUnlocked o (o .information) fs normalized with
    | .error e => (fs, .error e)
    | .ok info =>
      if ¬ info.directory then (fs, .error .enotdir)
      else ({ fs with currentDirectory := normalized }, .ok ())

inductive SysCall
  | open (path : CStr) (flags : OpenFlags)
  | close (file : Int)
  | read (file : Int) (length : Int)
  | write (file : Int) (buffer : List UInt8)
  | lseek (file : Int) (offset : Int) (origin : Origin)
  | fstat (file : Int)
  | ftruncate (file : Int) (length : Int)
  | unlink (path : CStr)
  | rename (oldPath newPath : CStr)
  | mkdir (path : CStr)
  | rmdir (path : CStr)
  | chdir (path : CStr)
deriving DecidableEq

inductive Answer
  | unit
  | number (n : Int)
  | bytes (bs : List UInt8)
  | stat (s : Stat)
deriving DecidableEq

def answered {α : Type} (f : α → Answer) (r : FileSystem × Except Errno α) :
    FileSystem × Except Errno Answer := (r.1, r.2.map f)

def exec (o : Outcomes) (fs : FileSystem) : SysCall → FileSystem × Except Errno Answer
  | .open path flags => answered .number (sysOpen o fs path flags)
  | .close file => answered (fun _ => .unit) (sysClose o fs file)
  | .read file length => answered .bytes (sysRead o fs file length)
  | .write file buffer => answered (fun n : Nat => .number n) (sysWrite o fs file buffer)
  | .lseek file offset origin =>
    answered (fun n : Nat => .number n) (sysLseek o fs file offset origin)
  | .fstat file => answered .stat (fs, sysFstat o fs file)
  | .ftruncate file length => answered (fun _ => .unit) (sysFtruncate o fs file length)
  | .unlink path => answered (fun _ => .unit) (sysUnlink o fs path)
  | .rename oldPath newPath => answered (fun _ => .unit) (sysRename o fs oldPath newPath)
  | .mkdir path => answered (fun _ => .unit) (sysMkdir o fs path)
  | .rmdir path => answered (fun _ => .unit) (sysRmdir o fs path)
  | .chdir path => answered (fun _ => .unit) (sysChdir o fs path)

/-- After `runtime_filex_initialize`, which gives up unless a volume is mounted. The volumes
may hold entries already; their objects have been counted. -/
structure Initial (fs : FileSystem) : Prop where
  mounted : fs.mounted .flash = true ∨ fs.mounted .sd = true
  currentDirectory : fs.currentDirectory =
    if fs.mounted .flash = true then mountName .flash else mountName .sd
  descriptors : ∀ i, fs.descriptors i = {}
  directories : ∀ i, fs.directories i = {}
  opened : fs.fx.opened = []
  objects : ∀ v k n, (fs.fx.media v).find? k = some n → n.object < fs.fx.nextObject

def stepCall (fs : FileSystem) (c : Outcomes × SysCall) : FileSystem :=
  (exec c.1 fs c.2).1

/-- Two empty volumes, right after initialisation. -/
def emptyVolumes : FileSystem where
  fx := ⟨fun _ => Tree.empty, fun _ => [], fun _ => 0, [], 0, 0⟩
  mounted _ := true
  maximumOffset := 2 ^ 31 - 1
  descriptors _ := {}
  directories _ := {}
  currentDirectory := mountName .flash
  renameBackupSequence := 0

theorem emptyVolumes_initial : Initial emptyVolumes :=
  ⟨Or.inl rfl, rfl, fun _ => rfl, fun _ => rfl, rfl, fun _ _ _ h => by cases h⟩

/-- No FileX call fails on its own account. -/
def quiet : Outcomes := { filex with fault := fun _ => none }

end SimPLCity.FileNamespace
