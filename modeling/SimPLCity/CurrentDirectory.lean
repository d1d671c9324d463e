import SimPLCity.CallEffects
import SimPLCity.RenameTransaction

/-! The current directory. Only `chdir` chooses it anew; every other call leaves it
naming the same place, because the calls that could remove or move that place refuse
to, or migrate the stored path. -/

namespace SimPLCity.CurrentDirectory
open PathText FileXVolume PathTree FileDescriptors FileNamespace LocatedPaths NamespaceEffects
  HandleSteps CallEffects RenameTransaction

/-- What a directory path can stand for. -/
inductive Place
  | virtualRoot
  | mountRoot (v : Volume)
  | directory (v : Volume) (object : ObjectId)

/-- `p` stands for the place. -/
def At (fs : FileSystem) (p : CStr) : Place → Prop
  | .virtualRoot => p = ['/']
  | .mountRoot v => Located fs.mounted p v []
  | .directory v object => ∃ k, Located fs.mounted p v k ∧
      (fs.fx.media v).find? k = some ⟨object, true⟩

structure DirectoryValid (fs : FileSystem) : Prop where
  buffer : NormalBuffer fs.currentDirectory
  place : ∃ place, At fs fs.currentDirectory place

/-- The current directory stays within its array and keeps its place. -/
structure PlaceKept (fs fs' : FileSystem) : Prop where
  buffer : NormalBuffer fs'.currentDirectory
  place : ∀ place, At fs fs.currentDirectory place → At fs' fs'.currentDirectory place

section
variable {o : Outcomes} {fs fs' : FileSystem} {p : RenamePlan} {k k' : List Name}

theorem PlaceKept.refl (h : DirectoryValid fs) : PlaceKept fs fs := ⟨h.buffer, fun _ => id⟩

theorem PlaceKept.valid (h : PlaceKept fs fs') (hv : DirectoryValid fs) : DirectoryValid fs' :=
  ⟨h.buffer, hv.place.imp h.place⟩

theorem PlaceKept.trans {fs'' : FileSystem} (h : PlaceKept fs fs') (h' : PlaceKept fs' fs'') :
    PlaceKept fs fs'' := ⟨h'.buffer, fun place hat => h'.place place (h.place place hat)⟩

theorem PlaceKept.of_entry (hv : DirectoryValid fs) (hm : fs'.mounted = fs.mounted)
    (hc : fs'.currentDirectory = fs.currentDirectory)
    (hentry : ∀ v c object, Located fs.mounted fs.currentDirectory v c →
      (fs.fx.media v).find? c = some ⟨object, true⟩ →
      (fs'.fx.media v).find? c = some ⟨object, true⟩) : PlaceKept fs fs' := by
  refine ⟨hc ▸ hv.buffer, fun place hat => ?_⟩
  cases place with
  | virtualRoot => exact hc.trans hat
  | mountRoot v =>
    change Located fs'.mounted fs'.currentDirectory v []
    rw [hm, hc]
    exact hat
  | directory v object =>
    obtain ⟨c, hl, hn⟩ := hat
    refine ⟨c, ?_, hentry v c object hl hn⟩
    rw [hm, hc]
    exact hl

theorem PlaceKept.of_media (hv : DirectoryValid fs) (hm : fs'.mounted = fs.mounted)
    (hc : fs'.currentDirectory = fs.currentDirectory) (hmedia : fs'.fx.media = fs.fx.media) :
    PlaceKept fs fs' :=
  .of_entry hv hm hc fun _ _ _ _ hn => by rw [hmedia]; exact hn

theorem touched_placeKept {i : Fin maximumOpenFiles} (h : Touched fs fs' i)
    (hv : DirectoryValid fs) : PlaceKept fs fs' := by
  rcases h with rfl | ⟨fx, d, rfl, hs⟩
  · exact .refl hv
  · exact .of_media hv rfl rfl hs.frame.1.media

theorem addEntry_placeKept (hv : DirectoryValid fs) {v : Volume} (directory : Bool)
    (h : (fs.fx.media v).Free k) :
    PlaceKept fs { fs with fx := fs.fx.addEntry v k directory h } := by
  refine .of_entry hv rfl rfl fun w c object _ hn => ?_
  by_cases hw : w = v
  · subst hw
    simp only [FileX.addEntry, setMedia_media_self]
    exact find?_insert_of_some h hn
  · simp only [FileX.addEntry, setMedia_media_ne _ _ hw]
    exact hn

theorem erase_placeKept (hv : DirectoryValid fs) {v : Volume} (h : (fs.fx.media v).Leaf k)
    (hne : ∀ object, Located fs.mounted fs.currentDirectory v k →
      (fs.fx.media v).find? k ≠ some ⟨object, true⟩) :
    PlaceKept fs { fs with fx := fs.fx.setMedia v ((fs.fx.media v).erase k h) } := by
  refine .of_entry hv rfl rfl fun w c object hl hn => ?_
  by_cases hw : w = v
  · subst hw
    simp only [setMedia_media_self]
    rw [find?_erase_ne _ h, hn]
    rintro rfl
    exact hne object hl hn
  · simp only [setMedia_media_ne _ _ hw]
    exact hn

theorem not_in_destination (hp : Planned fs p k k') {c : List Name} {object : ObjectId}
    (hl : Located fs.mounted fs.currentDirectory p.volume c)
    (hn : (fs.fx.media p.volume).find? c = some ⟨object, true⟩) (hr : p.replaces = true) :
    ¬ k' <+: c := by
  obtain ⟨_, hbusy, ⟨m, hm, hmd⟩, _⟩ := hp.destination hr
  cases hd : p.destinationIsDirectory with
  | true =>
    simp only [destinationBusy, hd, Bool.true_and, Bool.or_eq_false_iff] at hbusy
    intro hpre
    have hyes := (pathHasPrefix_iff hl.canonical hp.newName.canonical hp.newName.ne_root).mpr
      (by rw [hl.key, hp.newName.key]; simpa using hpre)
    exact absurd hbusy.1 (by simp [hyes])
  | false =>
    rintro ⟨s, rfl⟩
    rw [hd] at hmd
    by_cases hs : s = []
    · simp [hs, hm] at hn
      simp [hn] at hmd
    · simp [find?_none_of_childless (childless_of_file hm hmd) hs] at hn

theorem migrated_fits (hp : Planned fs p k k')
    (hd : p.sourceIsDirectory = true) :
    (migratePath fs.currentDirectory p.oldName p.newName true).length < maximumPath := by
  have hshort := hp.short
  simp only [migrationTooLong, hd, Bool.true_and, Bool.or_eq_false_iff, decide_eq_false_iff_not,
    not_le] at hshort
  rw [migratePath_length]
  exact hshort.1.2

theorem migratePaths_placeKept {t : Tree Name ObjectId} (hv : DirectoryValid fs)
    (hp : Planned fs p k k') (hch : Changed fs fs' p.volume t)
    (hentry : ∀ c n, (fs.fx.media p.volume).find? c = some n →
      (p.replaces = true → ¬ k' <+: c) → t.find? (rebase k k' c) = some n) :
    PlaceKept fs (migratePaths fs' p) := by
  obtain ⟨n, hn, hnd⟩ := hp.source
  cases hd : p.sourceIsDirectory with
  | false =>
    -- nothing lies below a file, so the path is not concerned
    refine .of_entry hv hch.mounted (by simp [migratePaths, hd, hch.currentDirectory]) ?_
    intro v c object hl hc
    by_cases hw : v = p.volume
    · subst hw
      have hout : ¬ k <+: c := by
        rintro ⟨s, rfl⟩
        rw [hd] at hnd
        by_cases hs : s = []
        · simp [hs, hn] at hc
          simp [hc] at hnd
        · simp [find?_none_of_childless (childless_of_file hn hnd) hs] at hc
      have := hentry c _ hc (not_in_destination hp hl hc)
      rw [rebase_outside k' hout] at this
      simpa [migratePaths, hch.self] using this
    · simpa [migratePaths, hch.other hw] using hc
  | true =>
    have hcwd : (migratePaths fs' p).currentDirectory =
        migratePath fs.currentDirectory p.oldName p.newName true := by
      simp [migratePaths, hd, hch.currentDirectory]
    refine ⟨?_, fun place hat => ?_⟩
    · rw [hcwd]
      exact ⟨migratePath_canonical true hv.buffer.canonical hp.oldName.canonical
        hp.newName.canonical hp.oldName.ne_root hp.newName.ne_root, migrated_fits hp hd⟩
    · have hmounted : (migratePaths fs' p).mounted = fs.mounted := hch.mounted
      cases place with
      | virtualRoot =>
        change (migratePaths fs' p).currentDirectory = ['/']
        rw [hcwd, show fs.currentDirectory = ['/'] from hat]
        exact migratePath_root true hp.oldName.canonical hp.oldName.ne_root
      | mountRoot v =>
        change Located _ _ v []
        rw [hmounted, hcwd]
        have hl := Located.migratePath true hat hp.oldName hp.newName
        have hk : ¬ k <+: [] := by
          intro hpre
          rw [List.prefix_nil.mp hpre] at hn
          simp at hn
        simpa [rebase_outside k' hk] using hl
      | directory v object =>
        obtain ⟨c, hl, hc⟩ := hat
        refine ⟨_, by rw [hmounted, hcwd]; exact hl.migratePath true hp.oldName hp.newName, ?_⟩
        change (fs'.fx.media v).find? _ = _
        by_cases hw : v = p.volume
        · subst hw
          rw [hch.self]
          simpa using hentry c _ hc (not_in_destination hp hl hc)
        · rw [hch.other hw]
          simpa [hw] using hc

theorem sysRename_placeKept (hv : DirectoryValid fs) (oldPath newPath : CStr) :
    PlaceKept fs (sysRename o fs oldPath newPath).1 := by
  unfold sysRename
  cases hc : renameChecks o fs oldPath newPath with
  | error e => exact .refl hv
  | ok p =>
    obtain ⟨_, _, k, k', hp⟩ := renameChecks_ok hc
    rcases (renameCommit_effect (o := o) hp).survives hp with
      ⟨t, hch, hentry⟩ | ⟨fs₁, t, heq, hch, hentry⟩
    · refine .of_entry hv hch.mounted hch.currentDirectory fun v c object hl hn => ?_
      by_cases hw : v = p.volume
      · subst hw
        rw [hch.self]
        exact hentry c _ hn (not_in_destination hp hl hn)
      · rwa [hch.other hw]
    · simp only [heq]
      exact migratePaths_placeKept hv hp hch hentry

theorem migratePaths_currentDirectory {t : Tree Name ObjectId} {r : List Name}
    (hp : Planned fs p k k') (hd : p.sourceIsDirectory = true)
    (hl : Located fs.mounted fs.currentDirectory p.volume (k ++ r))
    (hch : Changed fs fs' p.volume t) :
    Located fs.mounted (migratePaths fs' p).currentDirectory p.volume (k' ++ r) := by
  have := hl.migratePath true hp.oldName hp.newName
  simpa [migratePaths, hd, hch.currentDirectory] using this

theorem renameCommit_below (hp : Planned fs p k k') (hd : p.sourceIsDirectory = true)
    {r : List Name} {object : ObjectId}
    (hl : Located fs.mounted fs.currentDirectory p.volume (k ++ r))
    (hn : (fs.fx.media p.volume).find? (k ++ r) = some ⟨object, true⟩) :
    ∃ c', Located fs.mounted (renameCommit o fs p).1.currentDirectory p.volume c' ∧
      ∀ s, ((renameCommit o fs p).1.fx.media p.volume).find? (c' ++ s) =
        (fs.fx.media p.volume).find? (k ++ r ++ s) := by
  have hk : (fs.fx.media p.volume).find? k ≠ none := by
    obtain ⟨n, hn, _⟩ := hp.source
    simp [hn]
  have he := renameCommit_effect (o := o) hp
  generalize renameCommit o fs p = q at he
  cases he with
  | unmoved hch hsame _ =>
    exact ⟨k ++ r, by rw [hch.currentDirectory]; exact hl, fun s => by rw [hch.self, hsame]⟩
  | @displaced _ _ b h hr _ hch =>
    refine ⟨k ++ r, by rw [hch.currentDirectory]; exact hl, fun s => ?_⟩
    rw [hch.self]
    rcases h.2 with hsame | ⟨_, hfree⟩
    · subst hsame
      exact find?_move_refl _ h _
    · have hout : ¬ k' <+: k ++ r ++ s := by
        intro hpre
        rcases List.prefix_or_prefix_of_prefix hpre (List.prefix_append (k ++ r) s) with hin | hin
        · exact not_in_destination hp hl hn hr hin
        · exact (hp.destination hr).1 (hp.outside hd ((List.prefix_append k r).trans hin))
      refine find?_move_other _ h hout ?_
      rw [List.append_assoc]
      exact backup_not_above hfree.2.1 hk (r ++ s)
  | @moved _ h _ hch =>
    refine ⟨k' ++ r, migratePaths_currentDirectory hp hd hl hch, fun s => ?_⟩
    simp only [migratePaths, hch.self]
    rw [List.append_assoc, List.append_assoc, find?_move_new]
  | @replaced _ b h h' hleaf hr _ hch =>
    refine ⟨k' ++ r, migratePaths_currentDirectory hp hd hl hch, fun s => ?_⟩
    have hmoved := Moved.of_replace h h' hleaf hk (hp.destination hr).1
    simp only [migratePaths, hch.self]
    rw [List.append_assoc, List.append_assoc, hmoved.new]
  | @stranded _ _ b h h' hr _ _ hch =>
    refine ⟨k' ++ r, migratePaths_currentDirectory hp hd hl hch, fun s => ?_⟩
    simp only [migratePaths, hch.self]
    rw [List.append_assoc, List.append_assoc, find?_replace_new h h' hk (hp.destination hr).1]

theorem DirectoryValid.entry (hv : DirectoryValid fs) {v : Volume} {c : List Name}
    (hl : Located fs.mounted fs.currentDirectory v c) (hc : c ≠ []) :
    ∃ object, (fs.fx.media v).find? c = some ⟨object, true⟩ := by
  obtain ⟨place, hat⟩ := hv.place
  cases place with
  | virtualRoot => exact absurd hat hl.ne_root
  | mountRoot w => exact absurd (hl.unique hat).2 hc
  | directory w object =>
    obtain ⟨d, hd, hn⟩ := hat
    obtain ⟨rfl, rfl⟩ := hl.unique hd
    exact ⟨object, hn⟩

theorem sysRename_below (hv : DirectoryValid fs) {oldPath newPath oldName : CStr} {v : Volume}
    {c : List Name} (hold : normalizePathUnlocked fs.currentDirectory oldPath = .ok oldName)
    (hk : Located fs.mounted oldName v k) (hl : Located fs.mounted fs.currentDirectory v c)
    (hkc : k <+: c) :
    ∃ c', Located fs.mounted (sysRename o fs oldPath newPath).1.currentDirectory v c' ∧
      ∀ s, ((sysRename o fs oldPath newPath).1.fx.media v).find? (c' ++ s) =
        (fs.fx.media v).find? (c ++ s) := by
  unfold sysRename
  cases hc : renameChecks o fs oldPath newPath with
  | error e => exact ⟨c, hl, fun _ => rfl⟩
  | ok p =>
    obtain ⟨hold', _, l, k', hp⟩ := renameChecks_ok hc
    obtain rfl : oldName = p.oldName := Except.ok.inj (hold.symm.trans hold')
    obtain ⟨rfl, rfl⟩ := hk.unique hp.oldName
    obtain ⟨n, hn, hnd⟩ := hp.source
    obtain ⟨r, rfl⟩ := hkc
    have hne : k ++ r ≠ [] := by
      intro h0
      rw [(List.append_eq_nil_iff.mp h0).1] at hn
      simp at hn
    obtain ⟨object, hentry⟩ := hv.entry hl hne
    have hd : p.sourceIsDirectory = true := by
      rw [← hnd]
      by_cases hr : r = []
      · simp [hr, hn] at hentry
        simp [hentry]
      · rw [← isDirectory_of_find? hn]
        exact ancestor_isDirectory hentry hr
    exact renameCommit_below hp hd hl hentry

end

section
variable {o : Outcomes} {fs : FileSystem}

theorem descriptorCall_placeKept (hv : DirectoryValid fs) {fs' : FileSystem} {file : Int}
    (hbad : descriptorFor fs file = none → fs' = fs)
    (hgood : ∀ i, descriptorFor fs file = some i → Touched fs fs' i) : PlaceKept fs fs' := by
  cases hi : descriptorFor fs file with
  | none => rw [hbad hi]; exact .refl hv
  | some i => exact touched_placeKept (hgood i hi) hv

theorem sysOpen_placeKept (hv : DirectoryValid fs) (path : CStr) (flags : OpenFlags) :
    PlaceKept fs (sysOpen o fs path flags).1 := by
  rcases sysOpen_cases o fs path flags with
    ⟨h, _⟩ | ⟨p, v, k, slot, fx₀, object, info, fx, d, _, _, hent, hs, hend⟩
  · rw [h]
    exact .refl hv
  · have hmedia := hs.frame.1.media
    have hkept : ∀ d, PlaceKept fs (fs.setDescriptor slot fx d) := by
      intro d
      cases hent with
      | existing _ _ => exact .of_media hv rfl rfl hmedia
      | created hfree =>
        have hadded := addEntry_placeKept hv false hfree
        exact hadded.trans (.of_media (hadded.valid hv) rfl rfl hmedia)
    rcases hend with ⟨_, h⟩ | ⟨_, _, h⟩ <;> rw [h] <;> exact hkept _

theorem sysUnlink_placeKept (hv : DirectoryValid fs) (path : CStr) :
    PlaceKept fs (sysUnlink o fs path).1 := by
  rcases sysUnlink_cases o fs path with h | ⟨p, v, k, hl, _, _, _, ⟨n, hn, hnd, _⟩, h⟩ <;> rw [h]
  · exact .refl hv
  · refine erase_placeKept hv hl fun object _ hd => ?_
    rw [hn] at hd
    cases hd
    cases hnd

theorem sysRmdir_placeKept (hv : DirectoryValid fs) (path : CStr) :
    PlaceKept fs (sysRmdir o fs path).1 := by
  rcases sysRmdir_cases o fs path with h | ⟨p, v, k, hl, hnames, hcwd, _, h⟩ <;> rw [h]
  · exact .refl hv
  · refine erase_placeKept hv hl fun object hloc _ => hcwd ?_
    rw [pathHasPrefix_iff hloc.canonical hnames.located.canonical hnames.located.ne_root,
      hloc.key, hnames.located.key]

theorem sysMkdir_placeKept (hv : DirectoryValid fs) (path : CStr) :
    PlaceKept fs (sysMkdir o fs path).1 := by
  rcases sysMkdir_cases o fs path with h | ⟨p, v, k, hf, _, h⟩ <;> rw [h]
  · exact .refl hv
  · exact addEntry_placeKept hv true hf

theorem sysClose_placeKept (hv : DirectoryValid fs) (file : Int) :
    PlaceKept fs (sysClose o fs file).1 := by
  rcases sysClose_cases o fs file with ⟨_, h⟩ | ⟨i, fx, d, _, hs, _, h⟩ <;> rw [h]
  · exact .refl hv
  · exact .of_media hv rfl rfl hs.frame.1.media

theorem sysChdir_valid (hv : DirectoryValid fs) (path : CStr) :
    DirectoryValid (sysChdir o fs path).1 := by
  rcases sysChdir_cases o fs path with h | ⟨p, info, hb, hi, hd, h⟩ <;> rw [h]
  · exact hv
  · refine ⟨hb, ?_⟩
    rcases informationUnlocked_directory hb hi hd with hroot | ⟨v, k, hl, hdir⟩
    · exact ⟨.virtualRoot, hroot⟩
    · rcases (isDirectory_iff _ k).mp hdir with rfl | ⟨⟨object, directory⟩, hn, rfl⟩
      · exact ⟨.mountRoot v, hl⟩
      · exact ⟨.directory v object, k, hl, hn⟩

theorem exec_placeKept (hv : DirectoryValid fs) (call : SysCall) (h : ∀ path, call ≠ .chdir path) :
    PlaceKept fs (exec o fs call).1 := by
  cases call with
  | «open» path flags => exact sysOpen_placeKept hv path flags
  | close file => exact sysClose_placeKept hv file
  | read file length =>
    exact descriptorCall_placeKept hv (sysRead_bad length) fun i => sysRead_touched length
  | write file buffer =>
    exact descriptorCall_placeKept hv (sysWrite_bad buffer) fun i => sysWrite_touched buffer
  | lseek file offset origin =>
    exact descriptorCall_placeKept hv (sysLseek_bad offset origin)
      fun i => sysLseek_touched offset origin
  | fstat file => exact .refl hv
  | ftruncate file length =>
    exact descriptorCall_placeKept hv (sysFtruncate_bad length)
      fun i => sysFtruncate_touched length
  | unlink path => exact sysUnlink_placeKept hv path
  | rename oldPath newPath => exact sysRename_placeKept hv oldPath newPath
  | mkdir path => exact sysMkdir_placeKept hv path
  | rmdir path => exact sysRmdir_placeKept hv path
  | chdir path => exact absurd rfl (h path)

theorem step_valid (hv : DirectoryValid fs) (c : Outcomes × SysCall) :
    DirectoryValid (stepCall fs c) := by
  by_cases h : ∃ path, c.2 = .chdir path
  · obtain ⟨path, h⟩ := h
    simp only [stepCall, h]
    exact sysChdir_valid hv path
  · exact (exec_placeKept hv c.2 fun path hp => h ⟨path, hp⟩).valid hv

theorem initial_valid (h : Initial fs) : DirectoryValid fs := by
  have hloc : ∀ v, fs.mounted v = true → fs.currentDirectory = mountName v →
      DirectoryValid fs := fun v hm hc => by
    have hl : Located fs.mounted fs.currentDirectory v [] := by
      rw [hc]
      exact ⟨mountName_canonical v, hm, pathKey_mountName v⟩
    exact ⟨⟨hl.canonical, by rw [hc]; cases v <;> decide⟩, .mountRoot v, hl⟩
  have hcwd := h.currentDirectory
  split at hcwd
  · exact hloc .flash ‹_› hcwd
  · exact hloc .sd (h.mounted.resolve_left ‹_›) hcwd

end

theorem currentDirectory_never_dangles {fs : FileSystem} (h : Initial fs)
    (calls : List (Outcomes × SysCall)) :
    let s := Runs.run stepCall fs calls
    NormalBuffer s.currentDirectory ∧ (∃ place, At s s.currentDirectory place) ∧
    (∀ o call, (∀ path, call ≠ .chdir path) → ∀ place, At s s.currentDirectory place →
      At (exec o s call).1 (exec o s call).1.currentDirectory place) ∧
    ∀ o oldPath newPath oldName v k c,
      normalizePathUnlocked s.currentDirectory oldPath = .ok oldName →
      Located s.mounted oldName v k → Located s.mounted s.currentDirectory v c → k <+: c →
      ∃ c', Located s.mounted (sysRename o s oldPath newPath).1.currentDirectory v c' ∧
        ∀ names, ((sysRename o s oldPath newPath).1.fx.media v).find? (c' ++ names) =
          (s.fx.media v).find? (c ++ names) := by
  intro s
  have hstep : ∀ s c, DirectoryValid s → DirectoryValid (stepCall s c) := fun _ c hv =>
    step_valid hv c
  have hv : DirectoryValid s := Runs.invariant_always hstep (initial_valid h) calls
  exact ⟨hv.buffer, hv.place, fun o call hc => (exec_placeKept hv call hc).place,
    fun o oldPath newPath oldName v k c => sysRename_below hv⟩

set_option maxRecDepth 20000 in
theorem currentDirectory_never_dangles_renamed :
    let s := Runs.run stepCall emptyVolumes [(quiet, .mkdir ['a']), (quiet, .chdir ['a'])]
    let s' := (exec quiet s (.rename "/flash/a".toList "/flash/b".toList)).1
    s'.currentDirectory = "/flash/b".toList ∧
      At s' s'.currentDirectory (.directory .flash 0) := by
  have hkept := currentDirectory_never_dangles emptyVolumes_initial
    [(quiet, .mkdir ['a']), (quiet, .chdir ['a'])]
  refine ⟨by decide, hkept.2.2.1 quiet _ (by simp) _ ⟨[['A']], ⟨hkept.1.canonical, rfl, ?_⟩, ?_⟩⟩
  · decide
  · decide

end SimPLCity.CurrentDirectory
