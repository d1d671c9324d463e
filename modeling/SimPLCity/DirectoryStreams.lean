import SimPLCity.PathMigration
import SimPLCity.CurrentDirectory
import SimPLCity.Runs
import Mathlib.Algebra.Group.Int.Defs

/-! Directory streams. `opendir` copies the directory's entries into one of eight slots, all of it
under the registry mutex, and the other calls read that copy. A refused call is one made in an
interrupt, before the initialisation, or whose wait for the mutex fails. -/

namespace SimPLCity.DirectoryStreams
open PathText PathTree FileXVolume FileDescriptors FileNamespace

abbrev Slot := Fin maximumOpenDirectories

inductive StreamError
  | file (e : Errno)
  | eperm | eintr | enomem
deriving DecidableEq, Repr

inductive EntryType
  | directory | regular
deriving DecidableEq, Repr

/-- `DT_DIR` and `DT_REG`. -/
def EntryType.number : EntryType → Nat
  | .directory => 4
  | .regular => 8

structure Entry where
  name : Name
  type : EntryType
deriving DecidableEq, Repr

structure Dirent where
  ino : Nat := 0
  reclen : Nat := 0
  type : Nat := 0
  name : Name := []
deriving DecidableEq, Repr

/-- The rest of a stream; `allocated` and `path` are in the adapter's table. -/
structure Stream where
  position : Int := 0
  entries : List Entry := []
  entry : Dirent := {}
deriving DecidableEq, Repr

structure Directories where
  fs : FileSystem
  streams : Slot → Stream

/-- `usable` and the registry guard. -/
inductive Access
  | granted | inInterrupt | uninitialized | aborted | mutexFails
deriving DecidableEq, Repr

def Access.usable : Access → Option StreamError
  | .inInterrupt => some .eperm
  | .uninitialized => some (.file .enodev)
  | _ => none

def Access.guarded : Access → Option StreamError
  | .aborted => some .eintr
  | .mutexFails => some (.file .eio)
  | _ => none

/-- A null pointer that leaves the error number alone is `finished`. -/
inductive Answer
  | failed (e : StreamError)
  | stream (i : Slot)
  | entry (d : Dirent)
  | finished
  | done
  | position (n : Int)
  | other (r : Except Errno FileNamespace.Answer)
deriving DecidableEq

def Fault.errno (f : Fault) : Errno :=
  (filexErrno f.status).get (Option.isSome_iff_ne_none.mpr f.filexErrno_ne_none)

def Entry.dots (e : Entry) : Bool := e.name = ['.'] || e.name = ['.', '.']

/-- The loop over the entries that FileX finds. Call number `k` may fail, and so may the allocation
when so many entries have been kept. -/
def collect (fault : Nat → Option Fault) (memory : Nat → Bool) :
    Nat → List Entry → List Entry → Except StreamError (List Entry)
  | k, kept, [] =>
    match fault k with
    | some f => .error (.file (Fault.errno f))
    | none => .ok kept
  | k, kept, e :: rest =>
    match fault k with
    | some f => .error (.file (Fault.errno f))
    | none =>
      if e.dots then collect fault memory (k + 1) kept rest
      else if memory kept.length then collect fault memory (k + 1) (kept ++ [e]) rest
      else .error .enomem

/-- The mount points, for the virtual root. -/
def mountPoints (mounted : Volume → Bool) : List Entry :=
  ([Volume.flash, Volume.sd].filter mounted).map fun v => ⟨(mountName v).tail, .directory⟩

/-- An entry of the directory; `spelling` is how the names are written on the volume. -/
def entryNamed (spelling : Name → Name) (fx : FileX) (v : Volume) (path : CStr) (n : Name) : Entry :=
  ⟨spelling n, if (fx.media v).isDirectory (pathKey path ++ [n]) then .directory else .regular⟩

/-- What the directory holds. -/
def found (spelling : Name → Name) (fx : FileX) (v : Volume) (path : CStr) : List Entry :=
  (directoryEntries fx v path).map (entryNamed spelling fx v path)

def snapshot (o : Outcomes) (memory : Nat → Bool) (spelling : Name → Name) (fs : FileSystem)
    (r : ResolvedPath) : Except StreamError (List Entry) :=
  if r.virtualRoot then collect (fun _ => none) memory 0 [] (mountPoints fs.mounted)
  else
    match o .defaultSet with
    | some _ => .error (.file .eio)
    | none =>
      collect (fun k => o (.entryFind k)) memory 0 []
        ((o.fxDirectoryEntryFind fs.fx r.volume r.localPath).map
          (entryNamed spelling fs.fx r.volume r.localPath))

def freeSlot (fs : FileSystem) : Option Slot :=
  (List.finRange maximumOpenDirectories).find? fun i => !(fs.directories i).allocated

def Directories.set (s : Directories) (i : Slot) (d : DirectoryStream) (stream : Stream) : Directories where
  fs := { s.fs with directories := Function.update s.fs.directories i d }
  streams := Function.update s.streams i stream

def opendir (a : Access) (o : Outcomes) (memory : Nat → Bool) (spelling : Name → Name)
    (s : Directories) (path : CStr) : Directories × Answer :=
  match a.usable.or a.guarded with
  | some e => (s, .failed e)
  | none =>
    match resolvePathUnlocked s.fs path with
    | .error e => (s, .failed (.file e))
    | .ok (normalized, resolved) =>
      match informationUnlocked o (o .information) s.fs normalized with
      | .error e => (s, .failed (.file e))
      | .ok info =>
        if ¬ info.directory then (s, .failed (.file .enotdir))
        else
          match freeSlot s.fs with
          | none => (s, .failed (.file .emfile))
          | some i =>
            match snapshot o memory spelling s.fs resolved with
            | .error e => (s.set i {} {}, .failed e)
            | .ok entries => (s.set i ⟨true, normalized⟩ { entries }, .stream i)

/-- What the calls on a stream have in common; `early` is an error that is found before the mutex is
taken. -/
def withDirectory (a : Access) (s : Directories) (directory : Option Slot) (early : Option StreamError)
    (body : Slot → Directories × Answer) : Directories × Answer :=
  match a.usable with
  | some e => (s, .failed e)
  | none =>
    match directory with
    | none => (s, .failed (.file .ebadf))
    | some i =>
      match early.or a.guarded with
      | some e => (s, .failed e)
      | none => if (s.fs.directories i).allocated then body i else (s, .failed (.file .ebadf))

def Directories.setStream (s : Directories) (i : Slot) (stream : Stream) : Directories :=
  { s with streams := Function.update s.streams i stream }

/-- `sizeof(dirent)`. -/
def direntSize : Nat := 264

def direntAt (position : Int) (e : Entry) : Dirent where
  ino := ((position + 1) % 2 ^ 32).toNat
  reclen := direntSize
  type := e.type.number
  name := e.name

def readdir (a : Access) (s : Directories) (directory : Option Slot) : Directories × Answer :=
  withDirectory a s directory none fun i =>
    let d := s.streams i
    if d.position < 0 then (s, .failed (.file .ebadf))
    else
      match d.entries[d.position.toNat]? with
      | none => (s, .finished)
      | some e =>
        let entry := direntAt d.position e
        (s.setStream i { d with entry, position := d.position + 1 }, .entry entry)

def closedir (a : Access) (s : Directories) (directory : Option Slot) : Directories × Answer :=
  withDirectory a s directory none fun i => (s.set i {} {}, .done)

def rewinddir (a : Access) (s : Directories) (directory : Option Slot) : Directories × Answer :=
  withDirectory a s directory none fun i => (s.setStream i { s.streams i with position := 0 }, .done)

def telldir (a : Access) (s : Directories) (directory : Option Slot) : Directories × Answer :=
  withDirectory a s directory none fun i => (s, .position (s.streams i).position)

def seekdir (a : Access) (s : Directories) (directory : Option Slot) (position : Int) :
    Directories × Answer :=
  withDirectory a s directory (if position < 0 then some (.file .einval) else none) fun i =>
    (s.setStream i { s.streams i with position }, .done)

inductive Request
  | read | close | rewind | tell
  | seek (position : Int)
deriving DecidableEq, Repr

inductive Action
  | open (a : Access) (o : Outcomes) (memory : Nat → Bool) (spelling : Name → Name) (path : CStr)
  | directory (a : Access) (directory : Option Slot) (r : Request)
  | call (o : Outcomes) (c : SysCall)

def request (a : Access) (s : Directories) (directory : Option Slot) : Request → Directories × Answer
  | .read => readdir a s directory
  | .close => closedir a s directory
  | .rewind => rewinddir a s directory
  | .tell => telldir a s directory
  | .seek position => seekdir a s directory position

def step (s : Directories) : Action → Directories × Answer
  | .open a o memory spelling path => opendir a o memory spelling s path
  | .directory a directory r => request a s directory r
  | .call o c => ({ s with fs := (exec o s.fs c).1 }, .other (exec o s.fs c).2)

def start (fs : FileSystem) : Directories := ⟨fs, fun _ => {}⟩

def run (s : Directories) (acts : List Action) : Directories := Runs.run (fun s a => (step s a).1) s acts

/-- A directory is removed while a stream is open on it, and a file takes its place. -/
def replacedByFile : List Action :=
  [.call quiet (.mkdir "/flash/d".toList), .open .granted quiet (fun _ => true) id "/flash/d".toList,
    .call quiet (.rmdir "/flash/d".toList),
    .call quiet (.open "/flash/d".toList { access := .rdwr, creat := true })]

def renameFile : RenamePlan :=
  ⟨"/flash/d".toList, "/flash/e".toList, .flash, false, false, false⟩

/-- The stream has the old name of the file. It is renamed, and the stream keeps its path. -/
theorem rename_leaves_stream :
    let fs := (run (start emptyVolumes) replacedByFile).fs
    let fs' := (sysRename quiet fs "/flash/d".toList "/flash/e".toList).1
    renameChecks quiet fs "/flash/d".toList "/flash/e".toList = .ok renameFile ∧
      PathMigration.SourceRenamed quiet fs renameFile ∧
      PathMigration.stored fs' (.descriptor 0) = some "/flash/e".toList ∧
      PathMigration.stored fs (.directory 0) = some "/flash/d".toList ∧
      PathMigration.stored fs' (.directory 0) = some "/flash/d".toList ∧
      ¬ ∀ place, PathMigration.stored fs' place =
        (PathMigration.stored fs place).map (PathMigration.migrated renameFile) := by
  intro fs fs'
  have hbefore : PathMigration.stored fs (.directory 0) = some "/flash/d".toList := by decide +kernel
  have hafter : PathMigration.stored fs' (.directory 0) = some "/flash/d".toList := by decide +kernel
  refine ⟨by decide +kernel, ⟨_, _, _, _, rfl, rfl, rfl, rfl⟩, by decide +kernel, hbefore, hafter,
    fun hall => ?_⟩
  have hmigrated := hall (.directory 0)
  rw [hbefore, hafter] at hmigrated
  exact absurd hmigrated (by decide)

/-- What is asked of the stream in slot `i`, if the call gets as far. -/
def Action.asked (i : Slot) : Action → Option Request
  | .directory .granted (some j) r => if j = i then some r else none
  | _ => none

/-- The answers to what is asked of slot `i`. -/
def answers (i : Slot) : Directories → List Action → List Answer
  | _, [] => []
  | s, a :: acts =>
    if (a.asked i).isSome then (step s a).2 :: answers i (step s a).1 acts
    else answers i (step s a).1 acts

/-- The answers of one who reads the list `es` from position `p` on, and is alone with it. -/
def expected (i : Slot) (es : List Entry) : Nat → List Action → List Answer
  | _, [] => []
  | p, a :: acts =>
    match a.asked i with
    | none | some .close => expected i es p acts
    | some .read =>
      match es[p]? with
      | some e => .entry (direntAt p e) :: expected i es (p + 1) acts
      | none => .finished :: expected i es p acts
    | some .rewind => .done :: expected i es 0 acts
    | some .tell => .position p :: expected i es p acts
    | some (.seek q) =>
      if q < 0 then .failed (.file .einval) :: expected i es p acts
      else .done :: expected i es q.toNat acts

/-- The entries that the directory has when it is opened. -/
def listed (spelling : Name → Name) (fs : FileSystem) (r : ResolvedPath) : List Entry :=
  if r.virtualRoot then mountPoints fs.mounted
  else (found spelling fs.fx r.volume r.localPath).filter fun e => !e.dots

/-- A rename may change the path that an open stream was opened with. -/
structure SameSlots (fs fs' : FileSystem) : Prop where
  allocated : ∀ i, (fs'.directories i).allocated = (fs.directories i).allocated
  blank : ∀ i, fs.directories i = {} → fs'.directories i = {}

section
variable {fs fs' : FileSystem} {o : Outcomes}

theorem sameSlots_of_eq (h : fs'.directories = fs.directories) : SameSlots fs fs' where
  allocated := fun i => by rw [h]
  blank := fun i hi => by rw [h, hi]

theorem SameSlots.trans {fs'' : FileSystem} (h : SameSlots fs fs') (h' : SameSlots fs' fs'') :
    SameSlots fs fs'' where
  allocated := fun i => (h'.allocated i).trans (h.allocated i)
  blank := fun i hi => h'.blank i (h.blank i hi)

theorem sameSlots_migratePaths (fs : FileSystem) (p : RenamePlan) : SameSlots fs (migratePaths fs p) where
  allocated := fun i => by
    simp only [migratePaths]
    split <;> rfl
  blank := fun i hi => by
    simp [migratePaths, hi]

theorem sameSlots_rename (oldPath newPath : CStr) : SameSlots fs (sysRename o fs oldPath newPath).1 := by
  unfold sysRename
  split
  · exact sameSlots_of_eq rfl
  · rename_i p _
    obtain ⟨hrenamed, hnot⟩ := PathMigration.renameCommit_places o fs p
    by_cases h : PathMigration.SourceRenamed o fs p
    · obtain ⟨fs', hplaces, heq⟩ := hrenamed h
      simp only [heq]
      exact (sameSlots_of_eq hplaces.directories).trans (sameSlots_migratePaths fs' p)
    · exact sameSlots_of_eq (hnot h).directories

theorem sameSlots_touched {i : Fin maximumOpenFiles} (h : HandleSteps.Touched fs fs' i) : SameSlots fs fs' := by
  rcases h with rfl | ⟨fx, d, rfl, -⟩
  · exact sameSlots_of_eq rfl
  · exact sameSlots_of_eq rfl

theorem sameSlots_descriptor {file : Int} (hbad : descriptorFor fs file = none → fs' = fs)
    (hgood : ∀ i, descriptorFor fs file = some i → HandleSteps.Touched fs fs' i) : SameSlots fs fs' := by
  cases hi : descriptorFor fs file with
  | none =>
    rw [hbad hi]
    exact sameSlots_of_eq rfl
  | some i => exact sameSlots_touched (hgood i hi)

theorem sameSlots_open (path : CStr) (flags : OpenFlags) : SameSlots fs (sysOpen o fs path flags).1 := by
  rcases CallEffects.sysOpen_cases o fs path flags with
    ⟨h, -⟩ | ⟨p, v, k, slot, fx₀, object, info, fx, d, -, -, -, -, ⟨e, h⟩ | ⟨-, -, h⟩⟩
  · exact sameSlots_of_eq (by rw [h])
  · exact sameSlots_of_eq (by rw [h]; rfl)
  · exact sameSlots_of_eq (by rw [h]; rfl)

theorem sameSlots_exec (o : Outcomes) (fs : FileSystem) (c : SysCall) : SameSlots fs (exec o fs c).1 := by
  cases c with
  | «open» path flags => exact sameSlots_open path flags
  | close file =>
    rcases CallEffects.sysClose_cases o fs file with ⟨-, h⟩ | ⟨i, fx, d, -, -, -, h⟩
    · exact sameSlots_of_eq (by simp [exec, answered, h])
    · exact sameSlots_of_eq (by simp [exec, answered, h, FileSystem.setDescriptor])
  | read file length =>
    exact sameSlots_descriptor (HandleSteps.sysRead_bad length) fun i => HandleSteps.sysRead_touched length
  | write file buffer =>
    exact sameSlots_descriptor (HandleSteps.sysWrite_bad buffer) fun i => HandleSteps.sysWrite_touched buffer
  | lseek file offset origin =>
    exact sameSlots_descriptor (HandleSteps.sysLseek_bad offset origin)
      fun i => HandleSteps.sysLseek_touched offset origin
  | fstat file => exact sameSlots_of_eq rfl
  | ftruncate file length =>
    exact sameSlots_descriptor (HandleSteps.sysFtruncate_bad length)
      fun i => HandleSteps.sysFtruncate_touched length
  | unlink path =>
    rcases CallEffects.sysUnlink_cases o fs path with h | ⟨p, v, k, hl, -, -, -, -, h⟩
    · exact sameSlots_of_eq (by simp [exec, answered, h])
    · exact sameSlots_of_eq (by simp [exec, answered, h])
  | rename oldPath newPath => exact sameSlots_rename oldPath newPath
  | mkdir path =>
    rcases CallEffects.sysMkdir_cases o fs path with h | ⟨p, v, k, hl, -, h⟩
    · exact sameSlots_of_eq (by simp [exec, answered, h])
    · exact sameSlots_of_eq (by simp [exec, answered, h])
  | rmdir path =>
    rcases CallEffects.sysRmdir_cases o fs path with h | ⟨p, v, k, hl, -, -, -, h⟩
    · exact sameSlots_of_eq (by simp [exec, answered, h])
    · exact sameSlots_of_eq (by simp [exec, answered, h])
  | chdir path =>
    rcases CallEffects.sysChdir_cases o fs path with h | ⟨p, info, -, -, -, h⟩
    · exact sameSlots_of_eq (by simp [exec, answered, h])
    · exact sameSlots_of_eq (by simp [exec, answered, h])

end

section
variable {fault : Nat → Option Fault} {memory : Nat → Bool}

theorem collect_ok {k : Nat} {kept found es : List Entry} (h : collect fault memory k kept found = .ok es) :
    es = kept ++ found.filter fun e => !e.dots := by
  induction found generalizing k kept with
  | nil =>
    unfold collect at h
    split at h
    · cases h
    · cases h
      simp
  | cons e rest ih =>
    unfold collect at h
    split at h
    · cases h
    · split at h
      · rename_i hdots
        rw [ih h, List.filter_cons_of_neg (by simp [hdots])]
      · rename_i hdots
        split at h
        · rw [ih h, List.filter_cons_of_pos (by simp [hdots]), List.append_assoc, List.singleton_append]
        · cases h

theorem mountPoints_not_dots (mounted : Volume → Bool) :
    (mountPoints mounted).filter (fun e => !e.dots) = mountPoints mounted := by
  refine List.filter_eq_self.mpr fun e he => ?_
  obtain ⟨v, -, rfl⟩ := List.mem_map.mp he
  cases v <;> decide

theorem snapshot_ok {o : Outcomes} {spelling : Name → Name} {fs : FileSystem} {r : ResolvedPath}
    {es : List Entry} (h : snapshot o memory spelling fs r = .ok es) : es = listed spelling fs r := by
  unfold snapshot at h
  unfold listed
  split at h
  · rename_i hroot
    rw [if_pos hroot, collect_ok h, List.nil_append, mountPoints_not_dots]
  · rename_i hroot
    rw [if_neg hroot]
    split at h
    · cases h
    · rw [collect_ok h, List.nil_append, o.find_entries, found]

end

section
variable {s s' : Directories} {i j : Slot} {es : List Entry} {p : Nat}

theorem set_other (h : i ≠ j) (d : DirectoryStream) (stream : Stream) :
    (s.set j d stream).fs.directories i = s.fs.directories i ∧
      (s.set j d stream).streams i = s.streams i :=
  ⟨Function.update_of_ne h .., Function.update_of_ne h ..⟩

theorem freeSlot_free (h : freeSlot s.fs = some j) : (s.fs.directories j).allocated = false := by
  have hfree := List.find?_some h
  simpa using hfree

/-- What `opendir` can do. -/
inductive Opened (spelling : Name → Name) (s : Directories) (path : CStr) : Directories × Answer → Prop
  | refused (e : StreamError) : Opened spelling s path (s, .failed e)
  | cleared (i : Slot) (e : StreamError) (hfree : (s.fs.directories i).allocated = false) :
      Opened spelling s path (s.set i {} {}, .failed e)
  | opened (i : Slot) (normalized : CStr) (r : ResolvedPath)
      (hresolved : resolvePathUnlocked s.fs path = .ok (normalized, r))
      (hfree : (s.fs.directories i).allocated = false) : Opened spelling s path
        (s.set i ⟨true, normalized⟩ { entries := listed spelling s.fs r }, .stream i)

theorem opendir_opened (a : Access) (o : Outcomes) (memory : Nat → Bool) (spelling : Name → Name)
    (s : Directories) (path : CStr) :
    Opened spelling s path (opendir a o memory spelling s path) := by
  unfold opendir
  split
  · exact .refused _
  · split
    · exact .refused _
    · rename_i normalized r hresolved
      split
      · exact .refused _
      · split
        · exact .refused _
        · split
          · exact .refused _
          · rename_i i hfree
            split
            · exact .cleared i _ (freeSlot_free hfree)
            · rename_i es hes
              rw [snapshot_ok hes]
              exact .opened i normalized r hresolved (freeSlot_free hfree)

/-- The stream in slot `i` is open on the list `es`, at position `p`. -/
structure Reading (s : Directories) (i : Slot) (es : List Entry) (p : Nat) : Prop where
  allocated : (s.fs.directories i).allocated = true
  entries : (s.streams i).entries = es
  position : (s.streams i).position = p

theorem Reading.of_same (h : Reading s i es p)
    (hallocated : (s'.fs.directories i).allocated = (s.fs.directories i).allocated)
    (hstream : s'.streams i = s.streams i) : Reading s' i es p :=
  ⟨hallocated.trans h.allocated, hstream ▸ h.entries, hstream ▸ h.position⟩

theorem withDirectory_cases (a : Access) (s : Directories) (d : Option Slot) (early : Option StreamError)
    (body : Slot → Directories × Answer) :
    (∃ e, withDirectory a s d early body = (s, .failed e)) ∨
    ∃ j, a = .granted ∧ d = some j ∧ withDirectory a s d early body = body j := by
  unfold withDirectory
  split
  · exact Or.inl ⟨_, rfl⟩
  · rename_i husable
    split
    · exact Or.inl ⟨_, rfl⟩
    · rename_i j
      split
      · exact Or.inl ⟨_, rfl⟩
      · rename_i hguarded
        split
        · refine Or.inr ⟨j, ?_, rfl, rfl⟩
          have hboth := (Option.or_eq_none_iff.mp hguarded).2
          cases a <;> simp_all [Access.usable, Access.guarded]
        · exact Or.inl ⟨_, rfl⟩

theorem request_other {a : Access} {d : Option Slot} (r : Request) (h : a = .granted → d ≠ some i) :
    (request a s d r).1.fs.directories i = s.fs.directories i ∧
      (request a s d r).1.streams i = s.streams i := by
  have hkeep : ∀ {early : Option StreamError} {body : Slot → Directories × Answer},
      (∀ j, i ≠ j → (body j).1.fs.directories i = s.fs.directories i ∧ (body j).1.streams i = s.streams i) →
      (withDirectory a s d early body).1.fs.directories i = s.fs.directories i ∧
        (withDirectory a s d early body).1.streams i = s.streams i := by
    intro early body hbody
    rcases withDirectory_cases a s d early body with ⟨e, heq⟩ | ⟨j, ha, hd, heq⟩
    · rw [heq]
      exact ⟨rfl, rfl⟩
    · rw [heq]
      refine hbody j fun hij => h ha ?_
      rw [hd, hij]
  cases r with
  | read =>
    refine hkeep fun j hj => ?_
    simp only
    split
    · exact ⟨rfl, rfl⟩
    · split
      · exact ⟨rfl, rfl⟩
      · exact ⟨rfl, Function.update_of_ne hj ..⟩
  | close => exact hkeep fun j hj => set_other hj _ _
  | rewind => exact hkeep fun j hj => ⟨rfl, Function.update_of_ne hj ..⟩
  | tell => exact hkeep fun j hj => ⟨rfl, rfl⟩
  | seek position => exact hkeep fun j hj => ⟨rfl, Function.update_of_ne hj ..⟩

theorem Reading.open (h : Reading s i es p) {spelling : Name → Name} {path : CStr}
    {x : Directories × Answer} (hx : Opened spelling s path x) : Reading x.1 i es p := by
  have hne : ∀ {j}, (s.fs.directories j).allocated = false → i ≠ j := by
    intro j hj hij
    rw [← hij, h.allocated] at hj
    cases hj
  cases hx with
  | refused e => exact h
  | cleared j e hfree =>
    obtain ⟨hd, hs⟩ := set_other (s := s) (hne hfree) {} {}
    exact h.of_same (by rw [hd]) hs
  | opened j normalized r hresolved hfree =>
    obtain ⟨hd, hs⟩ := set_other (s := s) (hne hfree) ⟨true, normalized⟩ { entries := listed spelling s.fs r }
    exact h.of_same (by rw [hd]) hs

theorem Reading.other (h : Reading s i es p) {a : Action} (ha : a.asked i = none) :
    Reading (step s a).1 i es p := by
  cases a with
  | «open» a o memory spelling path => exact h.open (opendir_opened a o memory spelling s path)
  | directory a d r =>
    obtain ⟨hd, hs⟩ := request_other (s := s) (i := i) (a := a) (d := d) r fun hgranted hdi => by
      simp [hgranted, hdi, Action.asked] at ha
    exact h.of_same (by rw [step, hd]) hs
  | call o c => exact h.of_same ((sameSlots_exec o s.fs c).allocated i) rfl

theorem Reading.request (h : Reading s i es p) :
    (∀ e, es[p]? = some e → ∃ s', readdir .granted s (some i) = (s', .entry (direntAt p e)) ∧
      Reading s' i es (p + 1)) ∧
    (es[p]? = none → readdir .granted s (some i) = (s, .finished)) ∧
    (∃ s', rewinddir .granted s (some i) = (s', .done) ∧ Reading s' i es 0) ∧
    telldir .granted s (some i) = (s, .position p) ∧
    (∀ q : Int, q < 0 → seekdir .granted s (some i) q = (s, .failed (.file .einval))) ∧
    ∀ q : Nat, ∃ s', seekdir .granted s (some i) q = (s', .done) ∧ Reading s' i es q := by
  have hbody : ∀ body : Slot → Directories × Answer,
      withDirectory .granted s (some i) none body = body i := by
    intro body
    simp [withDirectory, Access.usable, Access.guarded, h.allocated]
  have hset : ∀ (stream : Stream) {q : Nat}, stream.entries = es → stream.position = q →
      Reading (s.setStream i stream) i es q := by
    intro stream q hentries hposition
    refine ⟨h.allocated, ?_, ?_⟩
    · simpa [Directories.setStream] using hentries
    · simpa [Directories.setStream] using hposition
  have hnotneg : ¬ ((p : Int) < 0) := by omega
  refine ⟨fun e he => ?_, fun he => ?_, ⟨_, hbody _, hset _ h.entries rfl⟩, ?_, fun q hq => ?_,
    fun q => ⟨_, ?_, hset { s.streams i with position := q } h.entries rfl⟩⟩
  · refine ⟨_, ?_, hset { s.streams i with entry := direntAt p e, position := p + 1 } h.entries rfl⟩
    simp [readdir, hbody, h.entries, h.position, hnotneg, he]
  · simp [readdir, hbody, h.entries, h.position, hnotneg, he]
  · simp [telldir, hbody, h.position]
  · simp [seekdir, withDirectory, Access.usable, hq]
  · have hq : ¬ ((q : Int) < 0) := by omega
    simp [seekdir, hq, hbody]

/-- The stream is a reader of its own list, whatever the others do. -/
theorem answers_expected (h : Reading s i es p) {acts : List Action}
    (hopen : ∀ a ∈ acts, a.asked i ≠ some .close) : answers i s acts = expected i es p acts := by
  induction acts generalizing s p with
  | nil => rfl
  | cons a acts ih =>
    have hrest : ∀ a ∈ acts, a.asked i ≠ some .close := fun a ha => hopen a (List.mem_cons_of_mem _ ha)
    have hclose := hopen a List.mem_cons_self
    unfold answers expected
    cases hasked : a.asked i with
    | none =>
      simp only [Option.isSome_none, Bool.false_eq_true, if_false]
      exact ih (h.other hasked) hrest
    | some r =>
      obtain rfl : a = .directory .granted (some i) r := by
        cases a with
        | directory a d r' =>
          cases a <;> cases d <;> simp_all [Action.asked]
        | _ => cases hasked
      obtain ⟨hread, hend, ⟨s', hrewind, h'⟩, htell, hnegative, hseek⟩ := h.request
      simp only [Option.isSome_some, if_true, step, DirectoryStreams.request]
      cases r with
      | read =>
        cases he : es[p]? with
        | some e =>
          obtain ⟨s', heq, h'⟩ := hread e he
          simp only [heq]
          rw [ih h' hrest]
        | none =>
          simp only [hend he]
          rw [ih h hrest]
      | close => exact absurd hasked hclose
      | rewind =>
        simp only [hrewind]
        rw [ih h' hrest]
      | tell =>
        simp only [htell]
        rw [ih h hrest]
      | seek q =>
        by_cases hq : q < 0
        · simp only [hnegative q hq, if_pos hq]
          rw [ih h hrest]
        · obtain ⟨n, rfl⟩ := Int.eq_ofNat_of_zero_le (not_lt.mp hq)
          obtain ⟨s', heq, h'⟩ := hseek n
          simp only [heq, if_neg hq]
          rw [ih h' hrest, Int.toNat_natCast]

end

/-- Slots that are not in use are blank. -/
def Tidy (s : Directories) : Prop :=
  ∀ i, (s.fs.directories i).allocated = false → s.fs.directories i = {} ∧ s.streams i = {}

section
variable {s s' : Directories} {i : Slot} {es : List Entry}

theorem set_blank (h : Tidy s) (hi : (s.fs.directories i).allocated = false) : s.set i {} {} = s := by
  obtain ⟨hd, hs⟩ := h i hi
  simp only [Directories.set]
  rw [← hd, ← hs, Function.update_eq_self, Function.update_eq_self]

theorem tidy_set (h : Tidy s) (i : Slot) {d : DirectoryStream} {stream : Stream}
    (hblank : d.allocated = false → d = {} ∧ stream = {}) : Tidy (s.set i d stream) := by
  intro j hj
  by_cases hij : j = i
  · subst hij
    simp only [Directories.set, Function.update_self] at hj ⊢
    exact hblank hj
  · obtain ⟨hd, hs⟩ := set_other (s := s) hij d stream
    rw [hd] at hj ⊢
    rw [hs]
    exact h j hj

theorem tidy_setStream (h : Tidy s) (hi : (s.fs.directories i).allocated = true) (stream : Stream) :
    Tidy (s.setStream i stream) := by
  intro j hj
  have hij : j ≠ i := by
    rintro rfl
    have hj : (s.fs.directories j).allocated = false := hj
    rw [hi] at hj
    cases hj
  refine ⟨(h j hj).1, ?_⟩
  simp only [Directories.setStream, Function.update_of_ne hij]
  exact (h j hj).2

theorem tidy_request (h : Tidy s) (a : Access) (d : Option Slot) (r : Request) :
    Tidy (request a s d r).1 := by
  have hkeep : ∀ {early : Option StreamError} {body : Slot → Directories × Answer},
      (∀ j, (s.fs.directories j).allocated = true → Tidy (body j).1) →
      Tidy (withDirectory a s d early body).1 := by
    intro early body hbody
    unfold withDirectory
    split
    · exact h
    · split
      · exact h
      · split
        · exact h
        · split
          · exact hbody _ ‹_›
          · exact h
  cases r with
  | read =>
    refine hkeep fun j hj => ?_
    simp only
    split
    · exact h
    · split
      · exact h
      · exact tidy_setStream h hj _
  | close => exact hkeep fun j _ => tidy_set h j fun _ => ⟨rfl, rfl⟩
  | rewind => exact hkeep fun j hj => tidy_setStream h hj _
  | tell => exact hkeep fun j _ => h
  | seek position => exact hkeep fun j hj => tidy_setStream h hj _

theorem tidy_open (h : Tidy s) {spelling : Name → Name} {path : CStr} {x : Directories × Answer}
    (hx : Opened spelling s path x) : Tidy x.1 := by
  cases hx with
  | refused e => exact h
  | cleared i e hfree => exact tidy_set h i fun _ => ⟨rfl, rfl⟩
  | opened i normalized r hresolved hfree => exact tidy_set h i fun hd => by cases hd

theorem tidy_step (h : Tidy s) (a : Action) : Tidy (step s a).1 := by
  cases a with
  | «open» a o memory spelling path => exact tidy_open h (opendir_opened a o memory spelling s path)
  | directory a d r => exact tidy_request h a d r
  | call o c =>
    intro i hi
    have hsame := sameSlots_exec o s.fs c
    have hi : ((exec o s.fs c).1.directories i).allocated = false := hi
    rw [hsame.allocated] at hi
    exact ⟨hsame.blank i (h i hi).1, (h i hi).2⟩

theorem tidy_run (h : Tidy s) (acts : List Action) : Tidy (run s acts) := by
  unfold run
  exact Runs.invariant_always (P := Tidy) (fun _ a h => tidy_step h a) h acts

theorem tidy_start {fs : FileSystem} (h : Initial fs) : Tidy (start fs) :=
  fun i _ => ⟨h.directories i, rfl⟩

/-- Of the calls `acts`, those that read the stream. -/
def reads (i : Slot) (acts : List Action) : Nat := acts.countP fun a => (a.asked i).isSome

/-- The answer of `readdir` at position `k`. -/
def readAt (es : List Entry) (k : Nat) : Answer :=
  match es[k]? with
  | some e => .entry (direntAt k e)
  | none => .finished

theorem readAt_end {k : Nat} (h : es.length ≤ k) : readAt es k = .finished := by
  simp [readAt, List.getElem?_eq_none h]

theorem expected_end {acts : List Action} (hread : ∀ a ∈ acts, ∀ r ∈ a.asked i, r = .read) {p : Nat}
    (hp : es.length ≤ p) : expected i es p acts = List.replicate (reads i acts) .finished := by
  induction acts with
  | nil => rfl
  | cons a acts ih =>
    have ih := ih fun a ha => hread a (List.mem_cons_of_mem _ ha)
    unfold expected reads
    cases hasked : a.asked i with
    | none =>
      rw [List.countP_cons_of_neg (by simp [hasked])]
      exact ih
    | some r =>
      obtain rfl := hread a List.mem_cons_self r hasked
      rw [List.countP_cons_of_pos (by simp [hasked]), List.replicate_succ, List.getElem?_eq_none hp]
      exact congrArg (_ :: ·) ih

/-- Reading only: the entries from `p` on, in order, and then the end as often as it is asked for. -/
theorem expected_reads {acts : List Action} (hread : ∀ a ∈ acts, ∀ r ∈ a.asked i, r = .read) (p : Nat) :
    expected i es p acts = (List.range' p (reads i acts)).map (readAt es) := by
  induction acts generalizing p with
  | nil => rfl
  | cons a acts ih =>
    have hrest : ∀ a ∈ acts, ∀ r ∈ a.asked i, r = .read := fun a ha => hread a (List.mem_cons_of_mem _ ha)
    unfold expected reads
    cases hasked : a.asked i with
    | none =>
      rw [List.countP_cons_of_neg (by simp [hasked])]
      exact ih hrest p
    | some r =>
      obtain rfl := hread a List.mem_cons_self r hasked
      rw [List.countP_cons_of_pos (by simp [hasked]), List.range'_succ, List.map_cons]
      cases he : es[p]? with
      | some e =>
        simp only [ih hrest, readAt, he]
        rfl
      | none =>
        have hp := List.getElem?_eq_none_iff.mp he
        have hend : (List.range' (p + 1) (reads i acts)).map (readAt es) =
            List.replicate (reads i acts) .finished := by
          rw [List.eq_replicate_iff]
          refine ⟨by simp, fun x hx => ?_⟩
          obtain ⟨k, hk, rfl⟩ := List.mem_map.mp hx
          exact readAt_end (le_trans hp (le_trans (Nat.le_succ p) (List.mem_range'_1.mp hk).1))
        simp only [expected_end hrest hp, readAt_end hp]
        exact congrArg (_ :: ·) hend.symm

end

/-- In every run from the initialisation: `opendir` either changes nothing, or takes a slot that was
free and copies what the directory then holds. From then on the stream's calls answer as if their
caller were alone with the copy: whatever becomes of the directory, its entries and the other
streams, until it is closed. Reading only gives each entry once and in order. -/
theorem streams_read_snapshots {fs : FileSystem} (hfs : Initial fs) (acts : List Action) (a : Access)
    (o : Outcomes) (memory : Nat → Bool) (spelling : Name → Name) (path : CStr) :
    let s := run (start fs) acts
    let x := step s (.open a o memory spelling path)
    (∃ e, x = (s, .failed e)) ∨
    ∃ i normalized r, x.2 = .stream i ∧ (s.fs.directories i).allocated = false ∧
      x.1.fs.directories i = ⟨true, normalized⟩ ∧
      resolvePathUnlocked s.fs path = .ok (normalized, r) ∧
      ∀ later : List Action, (∀ a ∈ later, a.asked i ≠ some .close) →
        answers i x.1 later = expected i (listed spelling s.fs r) 0 later ∧
        ((∀ a ∈ later, ∀ q ∈ a.asked i, q = .read) → answers i x.1 later =
          (List.range' 0 (reads i later)).map (readAt (listed spelling s.fs r))) := by
  intro s x
  have htidy : Tidy s := tidy_run (tidy_start hfs) acts
  have hopened : Opened spelling s path x := opendir_opened a o memory spelling s path
  clear_value x
  cases hopened with
  | refused e => exact Or.inl ⟨e, rfl⟩
  | cleared i e hfree => exact Or.inl ⟨e, by rw [set_blank htidy hfree]⟩
  | opened i normalized r hresolved hfree =>
    have hreading : Reading (s.set i ⟨true, normalized⟩ { entries := listed spelling s.fs r }) i
        (listed spelling s.fs r) 0 := by
      constructor <;> simp [Directories.set]
    refine Or.inr ⟨i, normalized, r, rfl, hfree, Function.update_self .., hresolved,
      fun later hlater => ?_⟩
    have hanswers := answers_expected hreading hlater
    exact ⟨hanswers, fun hread => hanswers.trans (expected_reads hread 0)⟩

/-- A directory is made, its parent is opened, and it is removed again before it is read. -/
def madeAndOpened : Directories × Answer :=
  step (run (start emptyVolumes) [.call quiet (.mkdir ['/', 'f', 'l', 'a', 's', 'h', '/', 'A'])])
    (.open .granted quiet (fun _ => true) id ['/', 'f', 'l', 'a', 's', 'h'])

def removedAndRead : List Action :=
  [.call quiet (.rmdir ['/', 'f', 'l', 'a', 's', 'h', '/', 'A']), .directory .granted (some 0) .read,
    .directory .granted (some 0) .read]

theorem streams_read_snapshots_removed : madeAndOpened.2 = .stream 0 ∧
    answers 0 madeAndOpened.1 removedAndRead = [.entry ⟨1, 264, 4, ['A']⟩, .finished] ∧
    ∃ es, answers 0 madeAndOpened.1 removedAndRead = (List.range' 0 2).map (readAt es) := by
  have hslot : madeAndOpened.2 = .stream 0 := by decide +kernel
  refine ⟨hslot, by decide +kernel, ?_⟩
  rcases streams_read_snapshots emptyVolumes_initial
    [.call quiet (.mkdir ['/', 'f', 'l', 'a', 's', 'h', '/', 'A'])] .granted quiet (fun _ => true) id
    ['/', 'f', 'l', 'a', 's', 'h'] with ⟨e, hfailed⟩ | ⟨i, normalized, r, hi, -, -, -, hanswers⟩
  · have hfailed : madeAndOpened = _ := hfailed
    rw [hfailed] at hslot
    cases hslot
  · obtain rfl : i = 0 := Answer.stream.inj (hi.symm.trans hslot)
    exact ⟨_, (hanswers removedAndRead (by decide)).2 (by decide)⟩

end SimPLCity.DirectoryStreams
