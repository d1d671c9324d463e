import SimPLCity.NamespaceEffects
import SimPLCity.HandleSteps

/-! One lemma for each call that says everything the call can do to the state. -/

namespace SimPLCity.CallEffects
open PathText FileXVolume PathTree FileDescriptors FileNamespace LocatedPaths NamespaceEffects
  HandleSteps

section
variable {o : Outcomes} {fs : FileSystem}

theorem createEntry_cases (x : Service) (directory : Bool) (fault : Option Fault) (fx : FileX)
    (v : Volume) (path : CStr) :
    (∃ st, st ≠ .success ∧ x.createEntry directory fault fx v path = (st, fx)) ∨
    ∃ h, fault = none ∧ x.createEntry directory fault fx v path =
      (.success, fx.addEntry v (pathKey path) directory h) := by
  cases fault with
  | some f => exact Or.inl ⟨f.status, f.status_ne_success, x.create_fault directory f fx v path⟩
  | none =>
    by_cases hf : (fx.media v).Free (pathKey path)
    · exact Or.inr ⟨hf, rfl, x.create_entry directory fx v path hf⟩
    · cases hn : fx.find? v path with
      | some n =>
        exact Or.inl ⟨.alreadyCreated, by decide,
          x.create_taken directory fx v path (by rw [hn]; rfl)⟩
      | none => exact Or.inl ⟨.invalidPath, by decide, x.create_orphan directory fx v path hn hf⟩

/-- The path of a call, normalised, names the proper entry `k` of a mounted volume. -/
structure Names (fs : FileSystem) (path normalized : CStr) (v : Volume) (k : List Name) :
    Prop where
  normalize : normalizePathUnlocked fs.currentDirectory path = .ok normalized
  located : Located fs.mounted normalized v k
  entry : k ≠ []

theorem Names.fits {path p : CStr} {v : Volume} {k : List Name} (h : Names fs path p v k) :
    p.length < maximumPath := (normalizePathUnlocked_buffer h.normalize).fits

theorem names_of_resolved {path p : CStr} {r : ResolvedPath}
    (h : resolvePathUnlocked fs path = .ok (p, r))
    (hroot : ¬ (r.virtualRoot || r.mountRoot) = true) :
    ∃ v k, Names fs path p v k ∧ Resolved r v k := by
  obtain ⟨hn, hr⟩ := resolvePathUnlocked_ok h
  obtain ⟨v, k, hl, hres, hk⟩ := resolved_entry (normalizePathUnlocked_buffer hn).canonical hr hroot
  exact ⟨v, k, ⟨hn, hl, hk⟩, hres⟩

theorem sysMkdir_cases (o : Outcomes) (fs : FileSystem) (path : CStr) :
    (sysMkdir o fs path).1 = fs ∨
    ∃ p v k h, Names fs path p v k ∧
      (sysMkdir o fs path).1 = { fs with fx := fs.fx.addEntry v k true h } := by
  unfold sysMkdir
  cases hres : resolvePathUnlocked fs path with
  | error e => exact Or.inl rfl
  | ok pr =>
    obtain ⟨p, r⟩ := pr
    simp only
    split
    · exact Or.inl rfl
    · rename_i hroot
      obtain ⟨v, k, hn, hr⟩ := names_of_resolved hres hroot
      obtain rfl := hr.volume
      obtain rfl := hr.key
      rcases createEntry_cases o true (o .directoryCreate) fs.fx r.volume r.localPath with
        ⟨st, _, hc⟩ | ⟨h, _, hc⟩
      · exact Or.inl (by simp [Calls.fxDirectoryCreate, hc])
      · exact Or.inr ⟨p, _, _, h, hn, by simp [Calls.fxDirectoryCreate, hc]⟩

theorem sysUnlink_cases (o : Outcomes) (fs : FileSystem) (path : CStr) :
    (sysUnlink o fs path).1 = fs ∨
    ∃ p v k h, Names fs path p v k ∧ o .information = none ∧ o .fileDelete = none ∧ Deletable fs.fx v k false ∧
      (sysUnlink o fs path).1 =
        { fs with fx := fs.fx.setMedia v ((fs.fx.media v).erase k h) } := by
  unfold sysUnlink
  cases hres : resolvePathUnlocked fs path with
  | error e => exact Or.inl rfl
  | ok pr =>
    obtain ⟨p, r⟩ := pr
    simp only
    split
    · exact Or.inl rfl
    · rename_i info hi
      split
      · exact Or.inl rfl
      · split
        · exact Or.inl rfl
        · rename_i hroot
          obtain ⟨v, k, hn, hr⟩ := names_of_resolved hres hroot
          obtain ⟨hfault, _⟩ := informationUnlocked_ok hn.located hn.fits hn.entry hi
          obtain rfl := hr.volume
          obtain rfl := hr.key
          rcases fxFileDelete_cases o (o .fileDelete) fs.fx r.volume r.localPath with
            ⟨st, _, _, hd, _⟩ | ⟨h, hf, hdel, hd⟩
          · exact Or.inl (by simp [hd])
          · exact Or.inr ⟨p, _, _, h, hn, hfault, hf, hdel, by simp [hd]⟩

theorem sysRmdir_cases (o : Outcomes) (fs : FileSystem) (path : CStr) :
    (sysRmdir o fs path).1 = fs ∨
    ∃ p v k h, Names fs path p v k ∧ ¬ pathHasPrefix fs.currentDirectory p true = true ∧
      Deletable fs.fx v k true ∧
      (sysRmdir o fs path).1 =
        { fs with fx := fs.fx.setMedia v ((fs.fx.media v).erase k h) } := by
  unfold sysRmdir
  cases hres : resolvePathUnlocked fs path with
  | error e => exact Or.inl rfl
  | ok pr =>
    obtain ⟨p, r⟩ := pr
    simp only
    split
    · exact Or.inl rfl
    · split
      · exact Or.inl rfl
      · split
        · exact Or.inl rfl
        · split
          · exact Or.inl rfl
          · rename_i hroot hcwd
            obtain ⟨v, k, hn, hr⟩ := names_of_resolved hres hroot
            obtain rfl := hr.volume
            obtain rfl := hr.key
            rcases fxDirectoryDelete_cases o (o .directoryDelete) fs.fx r.volume r.localPath with
              ⟨st, _, _, hd, _⟩ | ⟨h, _, hdel, hd⟩
            · exact Or.inl (by simp [hd])
            · exact Or.inr ⟨p, _, _, h, hn, hcwd, hdel, by simp [hd]⟩

theorem sysChdir_cases (o : Outcomes) (fs : FileSystem) (path : CStr) :
    (sysChdir o fs path).1 = fs ∨
    ∃ p info, NormalBuffer p ∧ informationUnlocked o (o .information) fs p = .ok info ∧
      info.directory = true ∧ (sysChdir o fs path).1 = { fs with currentDirectory := p } := by
  unfold sysChdir
  cases hn : normalizePathUnlocked fs.currentDirectory path with
  | error e => exact Or.inl rfl
  | ok p =>
    simp only
    split
    · exact Or.inl rfl
    · rename_i info hi
      split
      · exact Or.inl rfl
      · rename_i hd
        exact Or.inr ⟨p, info, normalizePathUnlocked_buffer hn, hi, by simpa using hd, rfl⟩

theorem descriptorFor_console {file : Int} (h : 0 ≤ file ∧ file ≤ 2) :
    descriptorFor fs file = none := by
  have : slotOf file = none := by
    unfold slotOf firstFileDescriptor
    rw [dif_neg (by omega)]
  simp [descriptorFor, this]

theorem sysClose_cases (o : Outcomes) (fs : FileSystem) (file : Int) :
    (descriptorFor fs file = none ∧ (sysClose o fs file).1 = fs) ∨
    ∃ i fx d, descriptorFor fs file = some i ∧
      Steps fs.mounted (fs.fx, fs.descriptors i) (fx, d) ∧ d.openMode = none ∧
      (sysClose o fs file).1 = fs.setDescriptor i fx {} := by
  unfold sysClose
  split
  · exact Or.inl ⟨descriptorFor_console ‹_›, rfl⟩
  · split
    · exact Or.inl ⟨‹_›, rfl⟩
    · rename_i i hi
      right
      cases hd : (fs.descriptors i).openMode with
      | none => exact ⟨i, fs.fx, fs.descriptors i, hi, .refl, hd, by simp [hd]⟩
      | some m =>
        exact ⟨i, _, _, hi, .single (.close o (o .fileClose) (by simp [hd])), rfl, by simp [hd]⟩

theorem openDescriptor_steps {flags : OpenFlags} {fx fx' : FileX} {d d' : FileDescriptor}
    {e : Option Errno} (h : openDescriptor o fs fx flags d = (fx', d', e)) :
    Steps fs.mounted (fx, d) (fx', d') ∧ (e = none → d'.openMode ≠ none) := by
  unfold openDescriptor at h
  rcases hsw : switchMode o fs.mounted fx d (if d.writable then .write else .read) with
    ⟨fx₁, d₁, _ | e₁⟩
  · obtain ⟨hs, hmode⟩ := switchMode_steps hsw
    have hopen : d₁.openMode ≠ none := by simp [hmode rfl]
    rw [hsw] at h
    simp only at h
    split at h
    · cases h
      exact ⟨(hs.trans (fxFileExtendedTruncateRelease_steps fs.mounted o (o .truncate) fx₁ d₁ 0
        hopen)).tail (.adjust 0 _ And.right), fun _ => hopen⟩
    · cases h
      exact ⟨hs, fun _ => hopen⟩
  · rw [hsw] at h
    cases h
    exact ⟨(switchMode_steps hsw).1, by simp⟩

/-- The entry that open finds or creates. -/
inductive OpenedEntry (fs : FileSystem) (v : Volume) (k : List Name) :
    FileX → ObjectId → EntryInformation → Prop
  | existing {n} (found : (fs.fx.media v).find? k = some n) (isFile : n.directory = false) :
      OpenedEntry fs v k fs.fx n.object ⟨fs.fx.entrySize n.object, false⟩
  | created (h : (fs.fx.media v).Free k) :
      OpenedEntry fs v k (fs.fx.addEntry v k false h) fs.fx.nextObject ⟨0, false⟩

theorem openChecks_ok {path p : CStr} {flags : OpenFlags} {r : ResolvedPath}
    {slot : Fin maximumOpenFiles} {info : Option EntryInformation}
    (h : openChecks o fs path flags = .ok (p, r, slot, info)) :
    ∃ v k, Names fs path p v k ∧ Resolved r v k ∧ (fs.descriptors slot).allocated = false ∧
      ∀ i, info = some i → ∃ n, (fs.fx.media v).find? k = some n ∧ n.directory = false ∧
        i = entryInformation fs.fx n := by
  obtain ⟨⟨p', r'⟩, hres, h⟩ := bind_eq_ok h
  simp only at h
  split at h
  · cases h
  · rename_i hroot
    obtain ⟨v, k, hn, hr⟩ := names_of_resolved hres hroot
    refine ⟨v, k, ?_⟩
    split at h
    · cases h
    · rename_i slot' hslot
      have hfree : (fs.descriptors slot').allocated = false := by simpa using List.find?_some hslot
      split at h
      · rename_i i hi
        split at h
        · cases h
        · rename_i hdir
          split at h
          · cases h
          · cases h
            refine ⟨hn, hr, hfree, fun j hj => ?_⟩
            obtain ⟨_, n, hfind, rfl⟩ := informationUnlocked_ok hn.located hn.fits hn.entry hi
            cases hj
            exact ⟨n, hfind, by simpa [entryInformation] using hdir, rfl⟩
      · split at h
        · cases h
        · split at h
          · cases h
          · cases h
            exact ⟨hn, hr, hfree, by simp⟩

theorem sysOpen_cases (o : Outcomes) (fs : FileSystem) (path : CStr) (flags : OpenFlags) :
    ((sysOpen o fs path flags).1 = fs ∧ ∃ e, (sysOpen o fs path flags).2 = .error e) ∨
    ∃ p v k slot fx₀ object info fx d, Names fs path p v k ∧
      (fs.descriptors slot).allocated = false ∧ OpenedEntry fs v k fx₀ object info ∧
      Steps fs.mounted (fx₀, newDescriptor flags p info) (fx, d) ∧
      ((∃ e, sysOpen o fs path flags = (fs.setDescriptor slot fx {}, .error e)) ∨
        d.openMode ≠ none ∧ openDescriptor o fs fx₀ flags (newDescriptor flags p info) = (fx, d, none) ∧
          sysOpen o fs path flags = (fs.setDescriptor slot fx d, .ok (fileNumber slot))) := by
  unfold sysOpen
  cases hc : openChecks o fs path flags with
  | error e => exact Or.inl ⟨rfl, e, rfl⟩
  | ok q =>
    obtain ⟨p, r, slot, info⟩ := q
    obtain ⟨v, k, hn, hr, hslot, hinfo⟩ := openChecks_ok hc
    obtain rfl := hr.volume
    obtain rfl := hr.key
    simp only
    -- the entry: found, or created without a fault
    have hentry : (∃ st, st ≠ .success ∧ createMissing o fs r info = (st, fs.fx)) ∨
        ∃ fx₀ object, OpenedEntry fs r.volume (pathKey r.localPath) fx₀ object
            (info.getD { directory := false }) ∧ createMissing o fs r info = (.success, fx₀) := by
      cases info with
      | some i =>
        obtain ⟨n, hfind, hd, rfl⟩ := hinfo i rfl
        have hentry : entryInformation fs.fx n = ⟨fs.fx.entrySize n.object, false⟩ := by
          simp [entryInformation, hd]
        rw [hentry]
        exact Or.inr ⟨_, _, .existing hfind hd, rfl⟩
      | none =>
        rcases createEntry_cases o false (o .fileCreate) fs.fx r.volume r.localPath with
          ⟨st, hst, hcr⟩ | ⟨h, _, hcr⟩
        · exact Or.inl ⟨st, hst, hcr⟩
        · exact Or.inr ⟨_, _, .created h, hcr⟩
    rcases hentry with ⟨st, hst, hcr⟩ | ⟨fx₀, object, hent, hcr⟩
    · rw [hcr]
      exact Or.inl (by simp [hst])
    · right
      rw [hcr]
      simp only [ne_eq, not_true, if_false]
      rcases hod : openDescriptor o fs fx₀ flags
          (newDescriptor flags p (info.getD { directory := false })) with ⟨fx, d, _ | e⟩
      · obtain ⟨hs, hopen⟩ := openDescriptor_steps hod
        exact ⟨p, _, _, slot, fx₀, object, _, fx, d, hn, hslot, hent, hs, Or.inr ⟨hopen rfl, hod, rfl⟩⟩
      · obtain ⟨hs, _⟩ := openDescriptor_steps hod
        cases hd : d.openMode with
        | none =>
          exact ⟨p, _, _, slot, fx₀, object, _, fx, d, hn, hslot, hent, hs,
            Or.inl ⟨e, by simp [hd]⟩⟩
        | some m =>
          exact ⟨p, _, _, slot, fx₀, object, _, _, _, hn, hslot, hent,
            hs.tail (.close o (o .fileClose) (by simp [hd])), Or.inl ⟨e, by simp [hd]⟩⟩

end

end SimPLCity.CallEffects
