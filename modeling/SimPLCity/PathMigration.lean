import SimPLCity.CheckedBuffer
import SimPLCity.NamespaceEffects

/-! Which of the adapter's stored paths a rename rewrites, and how. The lengths are checked before
the volume is touched, in a pass of its own over the same tables. -/

namespace SimPLCity.PathMigration
open PathText FileXVolume PathTree FileDescriptors FileNamespace LocatedPaths NamespaceEffects
  CheckedBuffer

/-- `migrate_path` -/
def migratePathBuffer {size : Nat} (path : Buffer size) (oldPrefix newPrefix : CStr)
    (includeDescendants : Bool) : Checked Errno (Buffer size) :=
  if ¬ pathHasPrefix path.text oldPrefix includeDescendants then pure path
  else do
    let suffix := path.text.drop oldPrefix.length
    let migrated ← (Buffer.zeros size).copy 0 newPrefix
    migrated.copy newPrefix.length (suffix ++ [terminator])

theorem migratePathBuffer_eq {size : Nat} {path : Buffer size} {s old new : CStr} {d : Bool}
    (h : path.Holds s) (hs : terminator ∉ s)
    (hfits : migratedPathLength s old new d < size) :
    ∃ migrated : Buffer size, migratePathBuffer path old new d = pure migrated ∧
      migrated.Holds (migratePath s old new d) ∧
      (pathHasPrefix s old d = false → migrated = path) := by
  unfold migratePathBuffer
  rw [h.text hs]
  unfold migratedPathLength at hfits
  unfold migratePath
  cases hpre : pathHasPrefix s old d with
  | false => exact ⟨path, rfl, h, fun _ => rfl⟩
  | true =>
    rw [hpre, if_pos rfl] at hfits
    obtain ⟨b, hb, hcopy⟩ := begins_nil (b := Buffer.zeros size).copy (ε := Errno) new
      (by rw [List.length_nil]; omega)
    rw [List.nil_append] at hb
    obtain ⟨b', hb', hcopy'⟩ := hb.copy (ε := Errno) (s.drop old.length ++ [terminator])
      (by rw [List.length_append, List.length_singleton]; omega)
    refine ⟨b', ?_, by rwa [if_pos rfl, Buffer.Holds, List.append_assoc], fun h => by cases h⟩
    rw [if_neg (by simp)]
    simp only
    rw [show (Buffer.zeros size).copy 0 new = pure b from hcopy, pure_bind, hcopy']

/-- Where the adapter keeps a path. -/
inductive Place
  | descriptor (i : Fin maximumOpenFiles)
  | directory (i : Fin maximumOpenDirectories)
  | current

def stored (fs : FileSystem) : Place → Option CStr
  | .descriptor i => if (fs.descriptors i).allocated then some (fs.descriptors i).path else none
  | .directory i => if (fs.directories i).allocated then some (fs.directories i).path else none
  | .current => some fs.currentDirectory

/-- Streams and the current directory stand for directories. -/
def Place.ofDirectory : Place → Bool
  | .descriptor _ => false
  | _ => true

structure StoredPaths (fs : FileSystem) : Prop where
  canonical : ∀ place s, stored fs place = some s → Canonical s
  fits : ∀ place s, stored fs place = some s → s.length < maximumPath
  plain : ∀ place s, stored fs place = some s → terminator ∉ s

/-- The path is the old name up to case, or lies below it if that is a directory. -/
def Follows (p : RenamePlan) (s : CStr) : Prop :=
  pathKey s = pathKey p.oldName ∨ p.sourceIsDirectory = true ∧ pathKey p.oldName <+: pathKey s

instance (p : RenamePlan) (s : CStr) : Decidable (Follows p s) :=
  inferInstanceAs (Decidable (_ ∨ _ ∧ _))

/-- The new name and the unchanged remainder, for a path that follows the source. -/
def migrated (p : RenamePlan) (s : CStr) : CStr :=
  if Follows p s then p.newName ++ s.drop p.oldName.length else s

/-- The passes over the tables leave streams and the current directory alone for a file. -/
def Place.visited (sourceIsDirectory : Bool) (place : Place) : Bool :=
  !place.ofDirectory || sourceIsDirectory

/-- What a place has after the source is renamed. -/
def Place.migrated (p : RenamePlan) (place : Place) (s : CStr) : CStr :=
  if place.visited p.sourceIsDirectory then PathMigration.migrated p s else s

theorem migrationTooLong_iff (fs : FileSystem) (old new : CStr) (d : Bool) :
    migrationTooLong fs old new d = true ↔ ∃ place s, stored fs place = some s ∧
      place.visited d = true ∧ migratedPathLength s old new d ≥ maximumPath := by
  unfold migrationTooLong
  rw [Bool.or_eq_true, Bool.or_eq_true, Bool.and_eq_true, Bool.and_eq_true, decide_eq_true_eq,
    decide_eq_true_eq, decide_eq_true_eq]
  constructor
  · rintro ((⟨i, ha, hlong⟩ | ⟨rfl, hlong⟩) | ⟨rfl, i, ha, hlong⟩)
    · exact ⟨.descriptor i, _, if_pos ha, rfl, hlong⟩
    · exact ⟨.current, _, rfl, rfl, hlong⟩
    · exact ⟨.directory i, _, if_pos ha, rfl, hlong⟩
  · rintro ⟨place, s, hs, hv, hlong⟩
    cases place with
    | descriptor i =>
      rw [stored] at hs
      split at hs <;> cases hs
      exact .inl (.inl ⟨i, by assumption, hlong⟩)
    | directory i =>
      rw [stored] at hs
      split at hs <;> cases hs
      obtain rfl : d = true := hv
      exact .inr ⟨rfl, i, by assumption, hlong⟩
    | current =>
      cases hs
      obtain rfl : d = true := hv
      exact .inl (.inr ⟨rfl, hlong⟩)

/-- The names lead to entries of one volume, and the old one to an entry of the kind noted. -/
structure Named (fs : FileSystem) (p : RenamePlan) (v : Volume) (k k' : List Name) : Prop where
  oldName : Located fs.mounted p.oldName v k
  newName : Located fs.mounted p.newName v k'
  source : ∃ n, (fs.fx.media v).find? k = some n ∧ n.directory = p.sourceIsDirectory

section
variable {o : Outcomes} {fs : FileSystem} {p : RenamePlan} {v : Volume} {k k' : List Name}
  {s : CStr} {place : Place}

theorem named_of_planned (hp : Planned fs p k k') : Named fs p p.volume k k' :=
  ⟨hp.oldName, hp.newName, hp.source⟩

theorem pathHasPrefix_iff_follows (hp : Named fs p v k k') (hs : Canonical s) :
    pathHasPrefix s p.oldName p.sourceIsDirectory = true ↔ Follows p s := by
  rw [pathHasPrefix_flag_iff _ hs hp.oldName.canonical hp.oldName.ne_root, Follows]
  constructor
  · rintro ⟨hpre, hd | heq⟩
    · exact Or.inr ⟨hd, hpre⟩
    · exact Or.inl heq
  · rintro (heq | ⟨hd, hpre⟩)
    · exact ⟨heq ▸ List.prefix_rfl, Or.inr heq⟩
    · exact ⟨hpre, Or.inl hd⟩

theorem migratePath_eq_migrated (hp : Named fs p v k k') (hs : Canonical s) :
    migratePath s p.oldName p.newName p.sourceIsDirectory = migrated p s := by
  have hiff := pathHasPrefix_iff_follows hp hs
  unfold migratePath migrated
  by_cases hf : Follows p s
  · rw [if_pos (hiff.mpr hf), if_pos hf]
  · rw [if_neg (mt hiff.mp hf), if_neg hf]

theorem migrated_canonical (hp : Named fs p v k k') (hs : Canonical s) :
    Canonical (migrated p s) := by
  rw [← migratePath_eq_migrated hp hs]
  exact migratePath_canonical _ hs hp.oldName.canonical hp.newName.canonical
    hp.oldName.ne_root hp.newName.ne_root

theorem migrated_length (hp : Named fs p v k k') (hs : Canonical s) :
    (migrated p s).length = migratedPathLength s p.oldName p.newName p.sourceIsDirectory := by
  rw [← migratePath_eq_migrated hp hs, migratePath_length]

theorem place_migrated (hp : Named fs p v k k') (hs : Canonical s) (place : Place) :
    place.migrated p s = if place.visited p.sourceIsDirectory then
      migratePath s p.oldName p.newName p.sourceIsDirectory else s := by
  rw [Place.migrated, migratePath_eq_migrated hp hs]

theorem migrationTooLong_of_outgrown (h : StoredPaths fs) (hp : Named fs p v k k')
    (hs : stored fs place = some s) (hlong : (place.migrated p s).length ≥ maximumPath) :
    migrationTooLong fs p.oldName p.newName p.sourceIsDirectory = true := by
  rw [migrationTooLong_iff]
  unfold Place.migrated at hlong
  split at hlong
  · rename_i hv
    refine ⟨place, s, hs, hv, ?_⟩
    rwa [← migrated_length hp (h.canonical place s hs)]
  · exact absurd (h.fits place s hs) (not_lt.mpr hlong)

theorem stored_migratePaths (fs : FileSystem) (p : RenamePlan) (place : Place) :
    stored (migratePaths fs p) place = (stored fs place).map fun s =>
      if place.visited p.sourceIsDirectory then
        migratePath s p.oldName p.newName p.sourceIsDirectory
      else s := by
  cases place with
  | descriptor i =>
    by_cases ha : (fs.descriptors i).allocated = true <;>
      simp [stored, migratePaths, Place.visited, Place.ofDirectory, ha]
  | directory i =>
    by_cases ha : (fs.directories i).allocated = true <;> cases hd : p.sourceIsDirectory <;>
      simp [stored, migratePaths, Place.visited, Place.ofDirectory, ha, hd]
  | current =>
    simp only [stored, migratePaths, Place.visited, Place.ofDirectory]
    cases p.sourceIsDirectory <;> rfl

end

structure SamePlaces (fs fs' : FileSystem) : Prop where
  descriptors : fs'.descriptors = fs.descriptors
  directories : fs'.directories = fs.directories
  currentDirectory : fs'.currentDirectory = fs.currentDirectory

section
variable {fs fs' fs'' : FileSystem}

theorem SamePlaces.refl (fs : FileSystem) : SamePlaces fs fs := ⟨rfl, rfl, rfl⟩

theorem SamePlaces.trans (h : SamePlaces fs fs') (h' : SamePlaces fs' fs'') :
    SamePlaces fs fs'' :=
  ⟨h'.descriptors.trans h.descriptors, h'.directories.trans h.directories,
    h'.currentDirectory.trans h.currentDirectory⟩

theorem SamePlaces.stored (h : SamePlaces fs fs') : stored fs' = stored fs := by
  funext place
  cases place <;>
    simp only [PathMigration.stored, h.descriptors, h.directories, h.currentDirectory]

end

section
variable {o : Outcomes} {fs : FileSystem} {p : RenamePlan}

theorem renameEntryUnlocked_places (x : Service) (fault : Option Fault) (d : Bool)
    (old new : CStr) : SamePlaces fs (renameEntryUnlocked x fault fs d old new).1 := by
  unfold renameEntryUnlocked
  split
  · exact .refl fs
  · exact .refl fs
  · split
    · exact .refl fs
    · exact ⟨rfl, rfl, rfl⟩

theorem deleteBackup_places (backup : Option CStr) :
    SamePlaces fs (deleteBackup o fs p backup).1 := by
  unfold deleteBackup
  split
  · exact .refl fs
  · unfold deleteEntryUnlocked
    split
    · exact .refl fs
    · exact ⟨rfl, rfl, rfl⟩

theorem flushSource_places : SamePlaces fs (flushSource o fs p).1 := by
  have h := flushSource_changed o fs p
  exact ⟨h.descriptors, h.directories, h.currentDirectory⟩

theorem backUpDestination_places : SamePlaces fs (backUpDestination o fs p).1 := by
  unfold backUpDestination
  split
  · obtain ⟨n, e, hfind, -⟩ := findRenameBackupUnlocked_spec o fs p.volume 256 0
    have hsame : SamePlaces fs { fs with renameBackupSequence := n } := ⟨rfl, rfl, rfl⟩
    rw [hfind]
    cases e with
    | error e => exact hsame
    | ok backup =>
      have hrename := hsame.trans (renameEntryUnlocked_places o (o .renameBackup)
        p.destinationIsDirectory p.newName backup)
      simp only
      split <;> rename_i hr <;> rw [hr] at hrename <;> exact hrename
  · exact .refl fs

theorem restoreDestination_places (backup : Option CStr) (e : Errno) :
    SamePlaces fs (restoreDestination o fs p backup e).1 := by
  unfold restoreDestination
  split
  · exact .refl fs
  · rename_i backup
    have hrename : SamePlaces fs (renameEntryUnlocked o (o .renameRestore) fs p.destinationIsDirectory
        backup p.newName).1 := renameEntryUnlocked_places _ _ _ _ _
    split <;> rename_i hr <;> rw [hr] at hrename <;> exact hrename

end

/-- The rename gets as far as renaming the source, and that succeeds. -/
def SourceRenamed (o : Outcomes) (fs : FileSystem) (p : RenamePlan) : Prop :=
  ∃ fs₁ fs₂ fs₃ backup, flushSource o fs p = (fs₁, none) ∧
    backUpDestination o fs₁ p = (fs₂, .ok backup) ∧ p.spellingChanged = true ∧
    renameEntryUnlocked o (o .renameSource) fs₂ p.sourceIsDirectory p.oldName p.newName =
      (fs₃, none)

section
variable {o : Outcomes} {fs : FileSystem} {p : RenamePlan}

theorem renameCommit_places (o : Outcomes) (fs : FileSystem) (p : RenamePlan) :
    (SourceRenamed o fs p → ∃ fs', SamePlaces fs fs' ∧
      (renameCommit o fs p).1 = migratePaths fs' p) ∧
    (¬ SourceRenamed o fs p → SamePlaces fs (renameCommit o fs p).1) := by
  have hflush : SamePlaces fs (flushSource o fs p).1 := flushSource_places
  unfold renameCommit
  rcases h₁ : flushSource o fs p with ⟨fs₁, _ | e⟩ <;> rw [h₁] at hflush
  · have hback := hflush.trans (backUpDestination_places (o := o) (p := p))
    simp only
    rcases h₂ : backUpDestination o fs₁ p with ⟨fs₂, e | backup⟩ <;> rw [h₂] at hback
    · refine ⟨?_, fun _ => hback⟩
      rintro ⟨_, _, _, _, h₁', h₂', -⟩
      cases h₁.symm.trans h₁'
      cases h₂.symm.trans h₂'
    · simp only
      cases hspelling : p.spellingChanged with
      | false =>
        refine ⟨?_, fun _ => hback⟩
        rintro ⟨_, _, _, _, -, -, h, -⟩
        rw [hspelling] at h
        cases h
      | true =>
        rw [if_pos rfl, renameSource]
        have hsource := hback.trans (renameEntryUnlocked_places o (o .renameSource)
          p.sourceIsDirectory p.oldName p.newName)
        rcases h₃ : renameEntryUnlocked o (o .renameSource) fs₂ p.sourceIsDirectory p.oldName
          p.newName with ⟨fs₃, _ | e⟩ <;> rw [h₃] at hsource
        · refine ⟨fun _ => ⟨_, hsource.trans (deleteBackup_places backup), rfl⟩, fun h => ?_⟩
          exact absurd ⟨fs₁, fs₂, fs₃, backup, h₁, h₂, hspelling, h₃⟩ h
        · refine ⟨?_, fun _ => hsource.trans (restoreDestination_places backup e)⟩
          rintro ⟨_, _, _, _, h₁', h₂', -, h₃'⟩
          cases h₁.symm.trans h₁'
          cases h₂.symm.trans h₂'
          cases h₃.symm.trans h₃'
  · refine ⟨?_, fun _ => hflush⟩
    rintro ⟨_, _, _, _, h₁', -⟩
    cases h₁.symm.trans h₁'

end

/-- What a rename that passes its checks does to the stored paths. -/
structure Migrated (o : Outcomes) (fs fs' : FileSystem) (p : RenamePlan) : Prop where
  fits : ∀ place s, stored fs place = some s →
    Canonical (place.migrated p s) ∧ (place.migrated p s).length < maximumPath
  array : ∀ place s (b : Buffer maximumPath), stored fs place = some s →
    place.visited p.sourceIsDirectory = true → b.Holds s →
    ∃ b' : Buffer maximumPath,
      migratePathBuffer b p.oldName p.newName p.sourceIsDirectory = pure b' ∧
      b'.Holds (migrated p s) ∧ (¬ Follows p s → b' = b)
  renamed : SourceRenamed o fs p → ∀ place, stored fs' place = (stored fs place).map (place.migrated p)
  kept : ¬ SourceRenamed o fs p → stored fs' = stored fs

/-- The checks in front of the one of the lengths have passed. -/
def ReachesLengths (o : Outcomes) (fs : FileSystem) (oldPath newPath : CStr) (p : RenamePlan) :
    Prop :=
  ∃ old new info, resolvePathUnlocked fs oldPath = .ok (p.oldName, old) ∧
    resolvePathUnlocked fs newPath = .ok (p.newName, new) ∧
    informationUnlocked o (o .information) fs p.oldName = .ok info ∧
    info.directory = p.sourceIsDirectory ∧
    (old.virtualRoot || old.mountRoot || new.virtualRoot || new.mountRoot) = false ∧
    old.media = new.media ∧
    (p.sourceIsDirectory && !pathsEqual p.oldName p.newName &&
      pathHasPrefix p.newName p.oldName true) = false

section
variable {o : Outcomes} {fs : FileSystem} {oldPath newPath : CStr} {p : RenamePlan}

theorem named_of_reachesLengths (h : ReachesLengths o fs oldPath newPath p) :
    ∃ v k k', Named fs p v k k' := by
  obtain ⟨old, new, info, hold, hnew, hinfo, hdir, hroots, hmedia, -⟩ := h
  obtain ⟨hon, hor⟩ := resolvePathUnlocked_ok hold
  obtain ⟨hnn, hnr⟩ := resolvePathUnlocked_ok hnew
  have hob := normalizePathUnlocked_buffer hon
  have hnb := normalizePathUnlocked_buffer hnn
  simp only [Bool.or_eq_false_iff] at hroots
  obtain ⟨v, k, hlo, hro, hk⟩ := resolved_entry hob.canonical hor (by simp [hroots])
  obtain ⟨w, k', hln, hrn, -⟩ := resolved_entry hnb.canonical hnr (by simp [hroots])
  obtain rfl : v = w := by simpa [hro.media, hrn.media] using hmedia
  obtain ⟨_, n, hn, rfl⟩ := informationUnlocked_ok hlo hob.fits hk hinfo
  exact ⟨v, k, k', hlo, hln, n, hn, hdir⟩

theorem renameChecks_tooLong (h : ReachesLengths o fs oldPath newPath p)
    (hlong : migrationTooLong fs p.oldName p.newName p.sourceIsDirectory = true) :
    renameChecks o fs oldPath newPath = .error .enametoolong := by
  obtain ⟨old, new, info, hold, hnew, hinfo, hdir, hroots, hmedia, hbelow⟩ := h
  unfold renameChecks
  rw [hold, hnew]
  change (informationUnlocked o (o .information) fs p.oldName >>= fun info => _) = _
  rw [hinfo]
  rw [← hdir] at hbelow hlong
  simp only [bind, Except.bind, hroots, hmedia, hbelow, hlong, Bool.false_eq_true, ne_eq,
    not_true, if_false, if_true]

theorem sysRename_migrated (h : StoredPaths fs)
    (hc : renameChecks o fs oldPath newPath = .ok p) :
    Migrated o fs (sysRename o fs oldPath newPath).1 p := by
  obtain ⟨-, -, k, k', hp⟩ := renameChecks_ok hc
  have hn := named_of_planned hp
  have hstate : (sysRename o fs oldPath newPath).1 = (renameCommit o fs p).1 := by
    rw [sysRename, hc]
  rw [hstate]
  have hfits : ∀ place s, stored fs place = some s →
      (place.migrated p s).length < maximumPath := by
    intro place s hs
    by_contra hlong
    have htoo := migrationTooLong_of_outgrown h hn hs (not_lt.mp hlong)
    rw [hp.short] at htoo
    cases htoo
  obtain ⟨hrenamed, hkept⟩ := renameCommit_places o fs p
  refine ⟨fun place s hs => ⟨?_, hfits place s hs⟩,
    fun place s b hs hv hb => ?_, fun hr place => ?_, fun hr => (hkept hr).stored⟩
  · have hcanonical := h.canonical place s hs
    unfold Place.migrated
    split
    · exact migrated_canonical hn hcanonical
    · exact hcanonical
  · have hcanonical := h.canonical place s hs
    have hlength := hfits place s hs
    rw [Place.migrated, if_pos hv, migrated_length hn hcanonical] at hlength
    obtain ⟨b', hb', hholds, hsame⟩ := migratePathBuffer_eq hb (h.plain place s hs) hlength
    rw [migratePath_eq_migrated hn hcanonical] at hholds
    refine ⟨b', hb', hholds, fun hf => hsame ?_⟩
    rw [← Bool.not_eq_true, pathHasPrefix_iff_follows hn hcanonical]
    exact hf
  · obtain ⟨fs', hsame, heq⟩ := hrenamed hr
    rw [heq, stored_migratePaths, hsame.stored]
    cases hs : stored fs place with
    | none => rfl
    | some s =>
      rw [Option.map_some, Option.map_some, place_migrated hn (h.canonical place s hs)]

end

/-- Migration is total and exact: of the paths that the passes visit, those that follow the source,
and they alone, are rewritten within their arrays, and a rename that would make one outgrow its
array changes nothing. For a file, streams and the current directory are not visited. -/
theorem rename_migrates {fs : FileSystem} (h : StoredPaths fs) (o : Outcomes)
    (oldPath newPath : CStr) (p : RenamePlan) :
    (renameChecks o fs oldPath newPath = .ok p →
      Migrated o fs (sysRename o fs oldPath newPath).1 p) ∧
    (ReachesLengths o fs oldPath newPath p →
      (∃ place s, stored fs place = some s ∧ (place.migrated p s).length ≥ maximumPath) →
      sysRename o fs oldPath newPath = (fs, .error .enametoolong)) := by
  refine ⟨sysRename_migrated h, ?_⟩
  rintro hreaches ⟨place, s, hs, hlong⟩
  obtain ⟨v, k, k', hn⟩ := named_of_reachesLengths hreaches
  rw [sysRename, renameChecks_tooLong hreaches (migrationTooLong_of_outgrown h hn hs hlong)]

def openFile : FileSystem :=
  (sysOpen quiet emptyVolumes "/flash/a".toList { access := .rdwr, creat := true }).1

def renameOpenFile : RenamePlan :=
  ⟨"/flash/A".toList, "/flash/bc".toList, .flash, false, false, false⟩

theorem openFile_stored (place : Place) (s : CStr) (h : stored openFile place = some s) :
    (place = .descriptor 0 ∧ s = "/flash/a".toList) ∨ (place = .current ∧ s = mountName .flash) := by
  cases place with
  | descriptor i =>
    left
    have hfirst : ∀ j, (openFile.descriptors j).allocated = true → j = 0 := by decide
    rw [stored] at h
    split at h
    · rename_i ha
      obtain rfl := hfirst i ha
      cases h
      exact ⟨rfl, by decide⟩
    · cases h
  | directory i => cases h
  | current =>
    cases h
    exact .inr ⟨rfl, rfl⟩

theorem openFile_storedPaths : StoredPaths openFile := by
  have hnormal : normalizePathUnlocked (mountName .flash) "/flash/a".toList =
      .ok "/flash/a".toList := by decide
  refine ⟨fun place s h => ?_, fun place s h => ?_, fun place s h => ?_⟩ <;>
    obtain ⟨rfl, rfl⟩ | ⟨rfl, rfl⟩ := openFile_stored _ _ h
  · exact (normalizePathUnlocked_buffer hnormal).canonical
  · exact mountName_canonical .flash
  · decide
  · decide
  · decide
  · decide

theorem rename_migrates_openFile :
    stored (sysRename quiet openFile "/flash/A".toList "/flash/bc".toList).1 (.descriptor 0) =
      some "/flash/bc".toList := by
  have hmigrated := (rename_migrates openFile_storedPaths quiet "/flash/A".toList
    "/flash/bc".toList renameOpenFile).1 (by decide)
  have hrenamed : SourceRenamed quiet openFile renameOpenFile :=
    ⟨_, _, _, _, rfl, rfl, rfl, rfl⟩
  rw [hmigrated.renamed hrenamed]
  decide

end SimPLCity.PathMigration
