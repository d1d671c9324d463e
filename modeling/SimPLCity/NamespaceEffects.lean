import SimPLCity.LocatedPaths

/-! What the calls on names do to the directory trees. A rename leaves one of three
trees behind: the old one, the one with the source moved, or, when the destination
could not be restored, the one with the destination under its backup name. -/

namespace SimPLCity.NamespaceEffects
open PathText FileXVolume PathTree FileDescriptors FileNamespace LocatedPaths

/-- The tree of one volume becomes `t`; the open files, their contents and every stored
path stay. Entry sizes and the backup sequence may change. -/
structure Changed (fs fs' : FileSystem) (v : Volume) (t : Tree Name ObjectId) : Prop where
  media : fs'.fx.media = Function.update fs.fx.media v t
  mounted : fs'.mounted = fs.mounted
  maximumOffset : fs'.maximumOffset = fs.maximumOffset
  content : fs'.fx.content = fs.fx.content
  entrySize : ∀ object, fs'.fx.entrySize object = fs.fx.entrySize object ∨
    fs'.fx.entrySize object = (fs.fx.content object).length
  opened : fs'.fx.opened = fs.fx.opened
  nextObject : fs'.fx.nextObject = fs.fx.nextObject
  nextHandle : fs'.fx.nextHandle = fs.fx.nextHandle
  descriptors : fs'.descriptors = fs.descriptors
  directories : fs'.directories = fs.directories
  currentDirectory : fs'.currentDirectory = fs.currentDirectory

section
variable {fs fs' fs'' : FileSystem} {v w : Volume} {t t' : Tree Name ObjectId}

theorem Changed.refl (fs : FileSystem) (v : Volume) : Changed fs fs v (fs.fx.media v) :=
  ⟨(Function.update_eq_self _ _).symm, rfl, rfl, rfl, fun _ => Or.inl rfl, rfl, rfl, rfl, rfl,
    rfl, rfl⟩

theorem Changed.trans (h : Changed fs fs' v t) (h' : Changed fs' fs'' v t') :
    Changed fs fs'' v t' := by
  refine ⟨?_, h'.mounted.trans h.mounted, h'.maximumOffset.trans h.maximumOffset,
    h'.content.trans h.content, fun object => ?_, h'.opened.trans h.opened, h'.nextObject.trans h.nextObject,
    h'.nextHandle.trans h.nextHandle, h'.descriptors.trans h.descriptors,
    h'.directories.trans h.directories, h'.currentDirectory.trans h.currentDirectory⟩
  · rw [h'.media, h.media, Function.update_idem]
  · rcases h'.entrySize object with hsame | hsize
    · rw [hsame]
      exact h.entrySize object
    · rw [hsize, h.content]
      exact Or.inr rfl

theorem Changed.self (h : Changed fs fs' v t) : fs'.fx.media v = t := by
  rw [h.media, Function.update_self]

theorem Changed.other (h : Changed fs fs' v t) (hw : w ≠ v) : fs'.fx.media w = fs.fx.media w := by
  rw [h.media, Function.update_of_ne hw]

theorem Changed.of_media (h : fs'.fx.media = fs.fx.media) (hc : Changed fs fs' w t) :
    Changed fs fs' v (fs.fx.media v) :=
  { hc with media := by rw [h, Function.update_eq_self] }

theorem Changed.located {p : CStr} {k : List Name} (h : Changed fs fs' v t)
    (hp : Located fs.mounted p w k) : Located fs'.mounted p w k := by
  rw [h.mounted]
  exact hp

theorem changed_setMedia (fs : FileSystem) (v : Volume) (t : Tree Name ObjectId) :
    Changed fs { fs with fx := fs.fx.setMedia v t } v t :=
  ⟨rfl, rfl, rfl, rfl, fun _ => Or.inl rfl, rfl, rfl, rfl, rfl, rfl, rfl⟩

end

section
variable {fs : FileSystem} {p q : CStr} {v : Volume} {k l : List Name} {directory : Bool}

theorem renameEntryUnlocked_located (x : Service) (fault : Option Fault) (directory : Bool)
    (hp : Located fs.mounted p v k) (hq : Located fs.mounted q v l) :
    ∃ a b, pathKey a = k ∧ pathKey b = l ∧ renameEntryUnlocked x fault fs directory p q =
      ({ fs with fx := (x.renameEntry directory fault fs.fx v a b).2 },
        filexErrno (x.renameEntry directory fault fs.fx v a b).1) := by
  obtain ⟨r, hr, hres⟩ := resolveNormalizedPath_located hp
  obtain ⟨s, hs, hres'⟩ := resolveNormalizedPath_located hq
  refine ⟨r.localPath, s.localPath, hres.key, hres'.key, ?_⟩
  cases directory <;>
    simp [renameEntryUnlocked, hr, hs, hres.media, hres'.media, hres.volume,
      Calls.fxDirectoryRename, Calls.fxFileRename]

theorem renameEntryUnlocked_cases (x : Service) (fault : Option Fault)
    (hp : Located fs.mounted p v k) (hq : Located fs.mounted q v l)
    (hout : directory = true → k <+: l → l = k) :
    (∃ e, renameEntryUnlocked x fault fs directory p q = (fs, some e)) ∨
    ∃ n h, fault = none ∧ (fs.fx.media v).find? k = some n ∧ n.directory = directory ∧
      renameEntryUnlocked x fault fs directory p q =
        ({ fs with fx := fs.fx.setMedia v ((fs.fx.media v).move k l h) }, none) := by
  obtain ⟨a, b, rfl, rfl, he⟩ := renameEntryUnlocked_located x fault directory hp hq
  rw [he]
  cases fault with
  | some f =>
    left
    obtain ⟨e, hf⟩ := Option.ne_none_iff_exists'.mp f.filexErrno_ne_none
    exact ⟨e, by rw [x.rename_fault, hf]⟩
  | none =>
    cases hn : (fs.fx.media v).find? (pathKey a) with
    | none => exact Or.inl ⟨.enoent, by rw [x.rename_missing _ _ _ _ _ hn]; rfl⟩
    | some n =>
      by_cases hd : n.directory = directory
      · by_cases hm : (fs.fx.media v).Movable (pathKey a) (pathKey b)
        · right
          exact ⟨n, hm, rfl, rfl, hd, by rw [x.rename_entry _ _ _ _ _ n hm hn hd]; rfl⟩
        · left
          have hbelow : directory = true → ¬ pathKey a <+: pathKey b := by
            intro h1 h2
            exact hm ⟨by simp [hn], Or.inl (hout h1 h2)⟩
          cases hb : fs.fx.find? v b with
          | some _ =>
            refine ⟨.eexist, ?_⟩
            rw [x.rename_taken _ _ _ _ _ n hn hd hm hbelow (by rw [hb]; rfl)]
            rfl
          | none =>
            refine ⟨.einval, ?_⟩
            rw [x.rename_orphan _ _ _ _ _ n hn hd hm hbelow hb]
            rfl
      · left
        rw [x.rename_other _ _ _ _ _ n hn hd]
        cases directory
        · exact ⟨.eisdir, rfl⟩
        · exact ⟨.enotdir, rfl⟩

/-- FileX can delete the entry: a file without open handles or an empty directory. -/
def Deletable (fx : FileX) (v : Volume) (k : List Name) (directory : Bool) : Prop :=
  ∃ n, (fx.media v).find? k = some n ∧ n.directory = directory ∧
    (directory = true → (fx.media v).Leaf k) ∧ (directory = false → fx.isOpen n.object = false)

theorem file_leaf {t : Tree Name ObjectId} {n : Node ObjectId} (hn : t.find? k = some n)
    (hf : n.directory = false) : t.Leaf k :=
  (children_eq_nil_iff t k).mpr (childless_of_file hn hf)

theorem Deletable.leaf {fx : FileX} (h : Deletable fx v k directory) : (fx.media v).Leaf k := by
  obtain ⟨n, hn, hd, hdir, _⟩ := h
  cases directory with
  | true => exact hdir rfl
  | false => exact file_leaf hn hd

theorem deleteEntryUnlocked_located (x : Service) (fault : Option Fault) (directory : Bool)
    (hp : Located fs.mounted p v k) :
    ∃ a, pathKey a = k ∧ deleteEntryUnlocked x fault fs directory p =
      if directory then
        ({ fs with fx := (x.fxDirectoryDelete fault fs.fx v a).2 },
          filexErrno (x.fxDirectoryDelete fault fs.fx v a).1)
      else
        ({ fs with fx := (x.fxFileDelete fault fs.fx v a).2 },
          filexErrno (x.fxFileDelete fault fs.fx v a).1) := by
  obtain ⟨r, hr, hres⟩ := resolveNormalizedPath_located hp
  refine ⟨r.localPath, hres.key, ?_⟩
  cases directory <;> simp [deleteEntryUnlocked, hr, hres.volume]

theorem fxFileDelete_cases (x : Service) (fault : Option Fault) (fx : FileX) (v : Volume) (a : CStr) :
    (∃ st e, filexErrno st = some e ∧ x.fxFileDelete fault fx v a = (st, fx) ∧
      (fault ≠ none ∨ ¬ Deletable fx v (pathKey a) false)) ∨
    ∃ h, fault = none ∧ Deletable fx v (pathKey a) false ∧ x.fxFileDelete fault fx v a =
      (.success, fx.setMedia v ((fx.media v).erase (pathKey a) h)) := by
  cases fault with
  | some f =>
    left
    obtain ⟨e, hf⟩ := Option.ne_none_iff_exists'.mp f.filexErrno_ne_none
    exact ⟨f.status, e, hf, x.delete_fault f fx v a, Or.inl (by simp)⟩
  | none =>
    cases hn : (fx.media v).find? (pathKey a) with
    | none =>
      refine Or.inl ⟨.notFound, .enoent, rfl, x.delete_missing fx v a hn, Or.inr ?_⟩
      rintro ⟨n, hn', _⟩
      simp [hn] at hn'
    | some n =>
      cases hd : n.directory with
      | true =>
        refine Or.inl ⟨.notAFile, .eisdir, rfl, x.delete_directory fx v a n hn hd, Or.inr ?_⟩
        rintro ⟨m, hm, hmd, _⟩
        obtain rfl : n = m := by simpa [hn] using hm
        simp [hd] at hmd
      | false =>
        have hl := file_leaf hn hd
        cases ho : fx.isOpen n.object with
        | true =>
          refine Or.inl ⟨.accessError, .eacces, rfl, x.delete_open fx v a n hn hd ho, Or.inr ?_⟩
          rintro ⟨m, hm, _, _, hmo⟩
          obtain rfl : n = m := by simpa [hn] using hm
          simp [ho] at hmo
        | false =>
          exact Or.inr ⟨hl, rfl, ⟨n, hn, hd, by simp, fun _ => ho⟩,
            x.delete_file fx v a n hl hn hd ho⟩

theorem fxDirectoryDelete_cases (x : Service) (fault : Option Fault) (fx : FileX) (v : Volume)
    (a : CStr) :
    (∃ st e, filexErrno st = some e ∧ x.fxDirectoryDelete fault fx v a = (st, fx) ∧
      (fault ≠ none ∨ ¬ Deletable fx v (pathKey a) true)) ∨
    ∃ h, fault = none ∧ Deletable fx v (pathKey a) true ∧ x.fxDirectoryDelete fault fx v a =
      (.success, fx.setMedia v ((fx.media v).erase (pathKey a) h)) := by
  cases fault with
  | some f =>
    left
    obtain ⟨e, hf⟩ := Option.ne_none_iff_exists'.mp f.filexErrno_ne_none
    exact ⟨f.status, e, hf, x.remove_fault f fx v a, Or.inl (by simp)⟩
  | none =>
    cases hn : (fx.media v).find? (pathKey a) with
    | none =>
      refine Or.inl ⟨.notFound, .enoent, rfl, x.remove_missing fx v a hn, Or.inr ?_⟩
      rintro ⟨n, hn', _⟩
      simp [hn] at hn'
    | some n =>
      cases hd : n.directory with
      | true =>
        by_cases hl : (fx.media v).Leaf (pathKey a)
        · exact Or.inr ⟨hl, rfl, ⟨n, hn, hd, fun _ => hl, by simp⟩,
            x.remove_directory fx v a n hl hn hd⟩
        · exact Or.inl ⟨.dirNotEmpty, .enotempty, rfl, x.remove_nonempty fx v a n hn hd hl,
            Or.inr fun h => hl h.leaf⟩
      | false =>
        refine Or.inl ⟨.notDirectory, .enotdir, rfl, x.remove_file fx v a n hn hd, Or.inr ?_⟩
        rintro ⟨m, hm, hmd, _⟩
        obtain rfl : n = m := by simpa [hn] using hm
        simp [hd] at hmd

theorem deleteEntryUnlocked_cases (x : Service) (fault : Option Fault) (directory : Bool)
    (hp : Located fs.mounted p v k) :
    (∃ e, deleteEntryUnlocked x fault fs directory p = (fs, some e) ∧
      (fault ≠ none ∨ ¬ Deletable fs.fx v k directory)) ∨
    ∃ h, fault = none ∧ Deletable fs.fx v k directory ∧
      deleteEntryUnlocked x fault fs directory p =
        ({ fs with fx := fs.fx.setMedia v ((fs.fx.media v).erase k h) }, none) := by
  obtain ⟨a, rfl, he⟩ := deleteEntryUnlocked_located x fault directory hp
  rw [he]
  cases directory with
  | true =>
    rcases fxDirectoryDelete_cases x fault fs.fx v a with ⟨st, e, hst, hr, hwhy⟩ | ⟨h, hf, hdel, hr⟩
    · exact Or.inl ⟨e, by simp [hr, hst], hwhy⟩
    · exact Or.inr ⟨h, hf, hdel, by simp [hr, filexErrno]⟩
  | false =>
    rcases fxFileDelete_cases x fault fs.fx v a with ⟨st, e, hst, hr, hwhy⟩ | ⟨h, hf, hdel, hr⟩
    · exact Or.inl ⟨e, by simp [hr, hst], hwhy⟩
    · exact Or.inr ⟨h, hf, hdel, by simp [hr, filexErrno]⟩

end

theorem hexadecimal_plain (digit : Nat) : isSeparator (hexadecimal digit) = false := by
  have : ∀ i : Fin 16, isSeparator (['0', '1', '2', '3', '4', '5', '6', '7', '8', '9', 'A', 'B',
    'C', 'D', 'E', 'F'].getD i.val '0') = false := by decide
  exact this ⟨digit % 16, Nat.mod_lt _ (by decide)⟩

/-- `FXR00000.TMP`. -/
def backupEntry (sequence : Nat) : Name :=
  ['F', 'X', 'R'] ++ [4, 3, 2, 1, 0].map (fun digit => hexadecimal (sequence / 16 ^ digit)) ++
    ['.', 'T', 'M', 'P']

theorem backupEntry_valid (sequence : Nat) : ValidName (backupEntry sequence) where
  nonempty := by simp [backupEntry]
  not_dot := by simp [backupEntry]
  not_dots := by simp [backupEntry]
  plain x hx := by
    simp only [backupEntry, List.mem_append, List.mem_map] at hx
    rcases hx with (hx | ⟨digit, _, rfl⟩) | hx
    · exact plain_of_any (by decide) x hx
    · exact hexadecimal_plain _
    · exact plain_of_any (by decide) x hx

theorem backupName_eq_render (v : Volume) (sequence : Nat) :
    backupName v sequence = render [(mountName v).tail, backupEntry sequence] := by
  cases v <;> simp [backupName, render, backupEntry, mountName]

theorem mountName_valid (v : Volume) : ValidName (mountName v).tail := by
  cases v <;> exact ⟨by decide, by decide, by decide, plain_of_any (by decide)⟩

def backupKey (sequence : Nat) : Name := foldName (backupEntry sequence)

theorem backupName_located {mounted : Volume → Bool} {v : Volume} (hm : mounted v = true)
    (sequence : Nat) : Located mounted (backupName v sequence) v [backupKey sequence] := by
  have hv : ∀ c ∈ [(mountName v).tail, backupEntry sequence], ValidName c := by
    intro c hc
    rcases List.mem_pair.mp hc with rfl | rfl
    · exact mountName_valid v
    · exact backupEntry_valid sequence
  rw [backupName_eq_render]
  refine ⟨canonical_render hv, hm, ?_⟩
  rw [pathKey_render hv]
  cases v <;> simp [mountName, mountKey, backupKey, foldName] <;> decide

theorem backupName_fits (v : Volume) (sequence : Nat) :
    (backupName v sequence).length < maximumPath := by
  cases v <;> simp [backupName, mountName, maximumPath]

theorem located_names {mounted : Volume → Bool} {p : CStr} {v : Volume} {k : List Name}
    (h : Located mounted p v k) {a : Name} (ha : a ∈ k) : ∃ c, ValidName c ∧ foldName c = a := by
  have hmem : a ∈ pathKey p := by simp [h.key, ha]
  obtain ⟨c, hc, rfl⟩ := List.mem_map.mp hmem
  exact ⟨c, h.canonical.validName c hc, rfl⟩

theorem searchEntries_cases (o : Outcomes) (names : List Name) (i : Nat) :
    searchEntries o i names = .success ∨ searchEntries o i names = .noMoreEntries ∨
      ∃ f : Fault, searchEntries o i names = f.status := by
  induction names generalizing i with
  | nil => cases hf : o (.entryFind i) <;> simp [searchEntries, hf]
  | cons name rest ih =>
    cases hf : o (.entryFind i) with
    | some f => exact Or.inr (Or.inr ⟨f, by simp [searchEntries, hf]⟩)
    | none =>
      simp only [searchEntries, hf]
      split
      · exact ih (i + 1)
      · exact Or.inl rfl

theorem searchEntries_noMoreEntries {o : Outcomes} {names : List Name} {i : Nat}
    (h : searchEntries o i names = .noMoreEntries) :
    ∀ name ∈ names, name = ['.'] ∨ name = ['.', '.'] := by
  induction names generalizing i with
  | nil => simp
  | cons name rest ih =>
    rw [searchEntries] at h
    cases hf : o (.entryFind i) with
    | some f => cases f <;> simp [hf, Fault.status] at h
    | none =>
      by_cases hn : name = ['.'] ∨ name = ['.', '.']
      · have h : searchEntries o (i + 1) rest = .noMoreEntries := by
          rcases hn with rfl | rfl <;> simpa [hf] using h
        rintro m (_ | ⟨_, hm⟩)
        · exact hn
        · exact ih h m hm
      · rw [not_or] at hn
        simp [hf, hn] at h

/-- No entry with a proper name lies directly below `k`. -/
def Vacant (t : Tree Name ObjectId) (k : List Name) : Prop :=
  ∀ c, ValidName c → t.find? (k ++ [foldName c]) = none

theorem mem_children {t : Tree Name ObjectId} {k : List Name} {a : Name} {n : Node ObjectId}
    (h : t.find? (k ++ [a]) = some n) : a ∈ t.children k := by
  simp only [Tree.children, List.mem_filterMap]
  exact ⟨⟨k ++ [a], n⟩, AList.mem_lookup_iff.mp h, by simp⟩

theorem requireEmptyDirectoryUnlocked_none {o : Outcomes} {fs : FileSystem} {p : CStr} {v : Volume}
    {k : List Name} (hp : Located fs.mounted p v k)
    (h : requireEmptyDirectoryUnlocked o fs p = none) : Vacant (fs.fx.media v) k := by
  obtain ⟨r, hr, hres⟩ := resolveNormalizedPath_located hp
  simp only [requireEmptyDirectoryUnlocked, hr, Option.or_eq_none_iff] at h
  have herr := h.1
  cases hd : o .defaultSet with
  | some f => simp [hd] at herr
  | none =>
    simp only [hd] at herr
    have hs : searchEntries o 0 (o.fxDirectoryEntryFind fs.fx r.volume r.localPath) =
        .noMoreEntries := by
      rcases searchEntries_cases o (o.fxDirectoryEntryFind fs.fx r.volume r.localPath) 0 with
        hs | hs | ⟨f, hs⟩
      · simp [hs] at herr
      · exact hs
      · cases f <;> simp [hs, Fault.status, filexErrno] at herr
    intro c hc
    by_contra hne
    obtain ⟨n, hn⟩ := Option.ne_none_iff_exists'.mp hne
    have hmem : foldName c ∈ o.fxDirectoryEntryFind fs.fx r.volume r.localPath := by
      rw [o.find_entries]
      simp [directoryEntries, hres.volume, hres.key, mem_children hn]
    rcases searchEntries_noMoreEntries hs _ hmem with h0 | h0
    · exact hc.foldName_ne_dot h0
    · exact hc.foldName_ne_dots h0

/-- `p` is a plan for moving the entry `k` to `k'`, and its tests have passed. -/
structure Planned (fs : FileSystem) (p : RenamePlan) (k k' : List Name) : Prop where
  oldName : Located fs.mounted p.oldName p.volume k
  newName : Located fs.mounted p.newName p.volume k'
  source : ∃ n, (fs.fx.media p.volume).find? k = some n ∧ n.directory = p.sourceIsDirectory
  outside : p.sourceIsDirectory = true → k <+: k' → k' = k
  short : migrationTooLong fs p.oldName p.newName p.sourceIsDirectory = false
  newFits : p.newName.length < maximumPath
  newEntry : k' ≠ []
  destination : p.replaces = true → k' ≠ k ∧
    destinationBusy fs p.newName p.destinationIsDirectory = false ∧
    (∃ n, (fs.fx.media p.volume).find? k' = some n ∧ n.directory = p.destinationIsDirectory) ∧
    (p.destinationIsDirectory = true → Vacant (fs.fx.media p.volume) k')
  sameName : p.oldName = p.newName → p.replaces = false

section
variable {o : Outcomes} {fs : FileSystem} {v : Volume} {k k' : List Name}

theorem destinationChecks_ok {oldName newName : CStr} {directory exist isDirectory : Bool}
    (ho : Located fs.mounted oldName v k) (hn : Located fs.mounted newName v k')
    (hfit : newName.length < maximumPath) (hk : k' ≠ [])
    (h : destinationChecks o fs oldName newName directory = .ok (exist, isDirectory)) :
    exist = true → oldName ≠ newName ∧
      (∃ n, (fs.fx.media v).find? k' = some n ∧ n.directory = isDirectory) ∧
      (k' ≠ k → destinationBusy fs newName isDirectory = false) := by
  rintro rfl
  unfold destinationChecks at h
  by_cases hsame : oldName = newName
  · simp [hsame] at h
  · rw [if_neg hsame] at h
    refine ⟨hsame, ?_⟩
    cases hi : informationUnlocked o (o .destinationInformation) fs newName with
    | error e => cases e <;> simp [hi] at h
    | ok info =>
      obtain ⟨_, n, hfind, rfl⟩ := informationUnlocked_ok hn hfit hk hi
      simp only [hi] at h
      split at h
      · cases h
      · split at h
        · cases h
        · rename_i hbusy
          simp only [Except.ok.injEq, Prod.mk.injEq, true_and] at h
          refine ⟨⟨n, hfind, h⟩, fun hne => ?_⟩
          have hp : ¬ pathsEqual oldName newName = true := by
            rw [pathsEqual_iff ho.canonical hn.canonical hn.ne_root, ho.key, hn.key]
            simpa using Ne.symm hne
          simpa [hp, h] using hbusy

theorem renameChecks_ok {oldPath newPath : CStr} {p : RenamePlan}
    (h : renameChecks o fs oldPath newPath = .ok p) :
    normalizePathUnlocked fs.currentDirectory oldPath = .ok p.oldName ∧
      normalizePathUnlocked fs.currentDirectory newPath = .ok p.newName ∧
      ∃ k k', Planned fs p k k' := by
  obtain ⟨⟨oldName, oldResolved⟩, hold, h⟩ := bind_eq_ok h
  obtain ⟨⟨newName, newResolved⟩, hnew, h⟩ := bind_eq_ok h
  obtain ⟨info, hinfo, h⟩ := bind_eq_ok h
  obtain ⟨hon, hor⟩ := resolvePathUnlocked_ok hold
  obtain ⟨hnn, hnr⟩ := resolvePathUnlocked_ok hnew
  have hob := normalizePathUnlocked_buffer hon
  have hnb := normalizePathUnlocked_buffer hnn
  simp only at hinfo h
  split at h
  · cases h
  rename_i hroots
  simp only [Bool.or_eq_true, not_or] at hroots
  split at h
  · cases h
  rename_i hmedia
  split at h
  · cases h
  rename_i hbelow
  split at h
  · cases h
  rename_i hshort
  obtain ⟨v, k, hlo, hro, hk⟩ := resolved_entry hob.canonical hor (by simp [hroots])
  obtain ⟨w, k', hln, hrn, hk'⟩ := resolved_entry hnb.canonical hnr (by simp [hroots])
  obtain rfl : v = w := by simpa [hro.media, hrn.media] using hmedia
  obtain ⟨⟨exist, isDirectory⟩, hdest, h⟩ := bind_eq_ok h
  have hd := destinationChecks_ok hlo hln hnb.fits hk' hdest
  have heq := pathsEqual_iff hlo.canonical hln.canonical hln.ne_root
  rw [hlo.key, hln.key] at heq
  obtain ⟨_, n, hn, rfl⟩ := informationUnlocked_ok hlo hob.fits hk hinfo
  have hsource : ∃ m, (fs.fx.media v).find? k = some m ∧
      m.directory = (entryInformation fs.fx n).directory := ⟨n, hn, rfl⟩
  -- the plan, whichever way the emptiness test went
  have hplan : p = ⟨oldName, newName, oldResolved.volume, (entryInformation fs.fx n).directory,
        exist, isDirectory⟩ ∧
      (p.replaces = true → isDirectory = true → requireEmptyDirectoryUnlocked o fs newName = none) := by
    split at h
    · split at h
      · cases h
      · rename_i hempty
        cases h
        exact ⟨rfl, fun _ _ => hempty⟩
    · rename_i hno
      cases h
      exact ⟨rfl, fun hrep hdir => absurd (Bool.and_eq_true_iff.mpr ⟨hrep, hdir⟩) hno⟩
  obtain ⟨rfl, hempty⟩ := hplan
  obtain rfl := hro.volume
  refine ⟨hon, hnn, k, k', hlo, hln, hsource, ?_, by simpa using hshort, hnb.fits, hk', ?_, ?_⟩
  · intro hdir hpre
    by_contra hne
    refine hbelow ?_
    have hp : pathHasPrefix newName oldName true = true := by
      rw [pathHasPrefix_iff hln.canonical hlo.canonical hlo.ne_root, hlo.key, hln.key]
      simpa using hpre
    have hnp : ¬ pathsEqual oldName newName = true := by
      rw [heq]
      simpa using Ne.symm hne
    simpa [hp, hnp] using hdir
  · intro hrep
    obtain ⟨hexist, hdiff⟩ : exist = true ∧ ¬ pathsEqual oldName newName = true := by
      simpa [RenamePlan.replaces, RenamePlan.destinationIsSource] using hrep
    have hne : k' ≠ k := by
      rintro rfl
      exact hdiff (heq.mpr rfl)
    obtain ⟨_, hfind, hbusy⟩ := hd hexist
    exact ⟨hne, hbusy hne, hfind,
      fun hdir => requireEmptyDirectoryUnlocked_none hln (hempty hrep hdir)⟩
  · intro hsame
    have hp : pathsEqual oldName newName = true := heq.mpr (by
      have := hln.key
      rw [← show oldName = newName from hsame, hlo.key] at this
      exact this)
    simp [RenamePlan.replaces, RenamePlan.destinationIsSource, hp]

end

section
variable {fs : FileSystem} {p q : CStr} {v : Volume} {k l : List Name} {directory : Bool}
  {t : Tree Name ObjectId}

theorem renameEntryUnlocked_changed (x : Service) (fault : Option Fault) (directory : Bool)
    (ht : fs.fx.media v = t) (hp : Located fs.mounted p v k) (hq : Located fs.mounted q v l)
    (hout : directory = true → k <+: l → l = k) :
    (∃ e, renameEntryUnlocked x fault fs directory p q = (fs, some e)) ∨
    ∃ fs' h, fault = none ∧ renameEntryUnlocked x fault fs directory p q = (fs', none) ∧
      Changed fs fs' v (t.move k l h) := by
  subst ht
  rcases renameEntryUnlocked_cases x fault hp hq hout with hfail | ⟨_, h, hf, _, _, hok⟩
  · exact Or.inl hfail
  · exact Or.inr ⟨_, h, hf, hok, changed_setMedia fs v _⟩

theorem renameEntryUnlocked_movable (x : Service) {n : Node ObjectId} (ht : fs.fx.media v = t)
    (hp : Located fs.mounted p v k) (hq : Located fs.mounted q v l) (hn : t.find? k = some n)
    (hd : n.directory = directory) (h : t.Movable k l) :
    ∃ fs', renameEntryUnlocked x none fs directory p q = (fs', none) ∧
      Changed fs fs' v (t.move k l h) := by
  subst ht
  obtain ⟨a, b, rfl, rfl, he⟩ := renameEntryUnlocked_located x none directory hp hq
  refine ⟨_, ?_, changed_setMedia fs v _⟩
  rw [he, x.rename_entry _ _ _ _ _ n h hn hd]
  rfl

theorem deleteEntryUnlocked_changed (x : Service) (fault : Option Fault) (directory : Bool)
    (ht : fs.fx.media v = t) (hp : Located fs.mounted p v k) :
    (∃ e, deleteEntryUnlocked x fault fs directory p = (fs, some e) ∧
      (fault ≠ none ∨ ¬ Deletable fs.fx v k directory)) ∨
    ∃ fs' h, fault = none ∧ Deletable fs.fx v k directory ∧
      deleteEntryUnlocked x fault fs directory p = (fs', none) ∧
        Changed fs fs' v (t.erase k h) := by
  subst ht
  rcases deleteEntryUnlocked_cases x fault directory hp with
    hfail | ⟨h, hf, hdel, hok⟩
  · exact Or.inl hfail
  · exact Or.inr ⟨_, h, hf, hdel, hok, changed_setMedia fs v _⟩

end

section
variable {t : Tree Name ObjectId} {k k' c : List Name} {b : Name} {n : Node ObjectId}

theorem prefix_cons {k s : List Name} (h : k <+: b :: s) (hk : k ≠ []) : [b] <+: k := by
  obtain ⟨a, r, rfl⟩ := List.exists_cons_of_ne_nil hk
  rw [(List.cons_prefix_cons.mp h).1]
  exact ⟨r, rfl⟩

theorem prefix_singleton {k : List Name} (h : k <+: [b]) (hk : k ≠ []) : k = [b] :=
  ((prefix_cons h hk).eq_of_length_le (by simpa using h.length_le)).symm

theorem backup_free (h : t.Movable k' [b]) (h' : (t.move k' [b] h).Movable k k') (hne : k' ≠ k) :
    t.find? [b] = none ∧ ¬ k' <+: [b] := by
  rcases h.2 with hsame | ⟨hout, hfree⟩
  · subst hsame
    rcases h'.2 with hk | ⟨_, hfree⟩
    · exact absurd hk hne
    · exact absurd (by simpa using hfree.2.1) h.1
  · exact ⟨hfree.2.1, hout⟩

theorem backup_apart (hb : t.find? [b] = none) (hk : t.find? k ≠ none) (s : List Name) :
    ¬ k <+: b :: s := by
  intro hpre
  obtain ⟨r, rfl⟩ := prefix_cons hpre (by rintro rfl; exact hk t.root)
  exact hk (find?_none_below (by simp) hb r)

theorem movable_apart (h : t.Movable k k') (hne : k ≠ k') (s : List Name) : ¬ k' <+: k ++ s := by
  rcases h.2 with hsame | ⟨hout, hfree⟩
  · exact absurd hsame.symm hne
  · intro hpre
    rcases List.prefix_or_prefix_of_prefix hpre (List.prefix_append k s) with ⟨r, hr⟩ | hb
    · exact h.1 (hr ▸ find?_none_below hfree.1 hfree.2.1 r)
    · exact hout hb

theorem backup_not_above (hb : t.find? [b] = none) (hk : t.find? k ≠ none) (s : List Name) :
    ¬ [b] <+: k ++ s := by
  intro hpre
  obtain ⟨a, r, rfl⟩ := List.exists_cons_of_ne_nil (l := k) (by rintro rfl; exact hk t.root)
  obtain rfl : b = a := (List.cons_prefix_cons.mp hpre).1
  exact hk (find?_none_below (by simp) hb r)

theorem find?_replace_new (h : t.Movable k' [b]) (h' : (t.move k' [b] h).Movable k k')
    (hk : t.find? k ≠ none) (hne : k' ≠ k) (s : List Name) :
    ((t.move k' [b] h).move k k' h').find? (k' ++ s) = t.find? (k ++ s) := by
  rw [find?_move_new, find?_move_other _ h (movable_apart h' (Ne.symm hne) s)
    (backup_not_above (backup_free h h' hne).1 hk s)]

theorem not_below_vacant {mounted : Volume → Bool} {p : CStr} {v : Volume}
    (hp : Located mounted p v k) (hv : Vacant t k') (hk : t.find? k ≠ none) (hne : k' ≠ k) :
    ¬ k' <+: k := by
  rintro ⟨s, rfl⟩
  obtain ⟨a, s, rfl⟩ := List.exists_cons_of_ne_nil (l := s) (by rintro rfl; simp at hne)
  obtain ⟨c, hc, rfl⟩ := located_names hp (a := a) (by simp)
  have := find?_none_below (p := k' ++ [foldName c]) (by simp) (hv c hc) s
  rw [List.append_assoc, List.singleton_append] at this
  exact hk this

end

/-- The source rename failed and so did renaming the backup back. -/
def RestoreFails (o : Outcomes) (fs : FileSystem) (p : RenamePlan) : Prop :=
  ∃ fs₁ fs₂ backup e, flushSource o fs p = (fs₁, none) ∧
    backUpDestination o fs₁ p = (fs₂, .ok (some backup)) ∧
    renameEntryUnlocked o (o .renameSource) fs₂ p.sourceIsDirectory p.oldName p.newName =
      (fs₂, some e) ∧
    (renameEntryUnlocked o (o .renameRestore) fs₂ p.destinationIsDirectory backup p.newName).2 ≠ none

/-- Every step in front of the deletion of the backup goes through, and the backup name
that was found is free. -/
def ReachesDeletion (o : Outcomes) (fs : FileSystem) (p : RenamePlan) : Prop :=
  ∃ fs₀ fs₁ backup, flushSource o fs p = (fs₀, none) ∧
    findRenameBackupUnlocked o fs₀ p.volume 256 0 = (fs₁, .ok backup) ∧
    informationUnlocked o none fs₀ backup = .error .enoent ∧
    o .renameBackup = none ∧ o .renameSource = none

/-- The exits of a rename after its checks, with the tree each of them leaves. -/
inductive RenameEffect (o : Outcomes) (fs : FileSystem) (p : RenamePlan) (k k' : List Name) :
    FileSystem × Option Errno → Prop
  | unmoved {fs' e t} (changed : Changed fs fs' p.volume t)
      (same : ∀ c, t.find? c = (fs.fx.media p.volume).find? c)
      (success : e = none → k = k') : RenameEffect o fs p k k' (fs', e)
  | displaced {fs' e b h} (replaces : p.replaces = true) (restore : RestoreFails o fs p)
      (changed : Changed fs fs' p.volume ((fs.fx.media p.volume).move k' [b] h)) :
      RenameEffect o fs p k k' (fs', some e)
  | moved {fs' h} (replaces : p.replaces = false)
      (changed : Changed fs fs' p.volume ((fs.fx.media p.volume).move k k' h)) :
      RenameEffect o fs p k k' (migratePaths fs' p, none)
  | replaced {fs' b h h' hl} (replaces : p.replaces = true)
      (deleted : o .deleteBackup = none ∧ Deletable fs.fx p.volume k' p.destinationIsDirectory)
      (changed : Changed fs fs' p.volume
        ((((fs.fx.media p.volume).move k' [b] h).move k k' h').erase [b] hl)) :
      RenameEffect o fs p k k' (migratePaths fs' p, none)
  | stranded {fs' e b h h'} (replaces : p.replaces = true) (reached : ReachesDeletion o fs p)
      (kept : o .deleteBackup ≠ none ∨ ¬ Deletable fs.fx p.volume k' p.destinationIsDirectory)
      (changed : Changed fs fs' p.volume
        (((fs.fx.media p.volume).move k' [b] h).move k k' h')) :
      RenameEffect o fs p k k' (migratePaths fs' p, some e)

section
variable {o : Outcomes} {fs : FileSystem} {p : RenamePlan} {k k' : List Name}

theorem flushSource_changed (o : Outcomes) (fs : FileSystem) (p : RenamePlan) :
    Changed fs (flushSource o fs p).1 p.volume (fs.fx.media p.volume) := by
  unfold flushSource
  split
  · cases hf : o .mediaFlush with
    | some f =>
      rw [o.flush_fault]
      exact ⟨(Function.update_eq_self _ _).symm, rfl, rfl, rfl, fun _ => Or.inl rfl, rfl, rfl, rfl,
        rfl, rfl, rfl⟩
    | none =>
      rw [o.flush_media]
      refine ⟨(Function.update_eq_self _ _).symm, rfl, rfl, rfl, fun object => ?_, rfl, rfl, rfl,
        rfl, rfl, rfl⟩
      simp only [FileX.flushed]
      split
      · exact Or.inr rfl
      · exact Or.inl rfl
  · exact Changed.refl fs p.volume

theorem findRenameBackupUnlocked_spec (o : Outcomes) (fs : FileSystem) (v : Volume)
    (attempts attempt : Nat) :
    ∃ n e, findRenameBackupUnlocked o fs v attempts attempt =
        ({ fs with renameBackupSequence := n }, e) ∧
      ∀ b, e = .ok b → ∃ sequence, b = backupName v sequence := by
  induction attempts generalizing attempt with
  | zero => exact ⟨_, _, rfl, by simp⟩
  | succ attempts ih =>
    rw [findRenameBackupUnlocked]
    split
    · exact ⟨_, _, rfl, fun b hb => ⟨_, (Except.ok.inj hb).symm⟩⟩
    · exact ⟨_, _, rfl, by simp⟩
    · exact ih (attempt + 1)

theorem changed_sequence (fs : FileSystem) (v : Volume) (n : Nat) :
    Changed fs { fs with renameBackupSequence := n } v (fs.fx.media v) :=
  ⟨(Function.update_eq_self _ _).symm, rfl, rfl, rfl, fun _ => Or.inl rfl, rfl, rfl, rfl, rfl,
    rfl, rfl⟩

theorem backUpDestination_cases {t : Tree Name ObjectId} (ht : fs.fx.media p.volume = t)
    (hq : Located fs.mounted p.newName p.volume k')
    (hd : p.replaces = true → t.find? k' ≠ none) :
    (∃ fs₁ e, backUpDestination o fs p = (fs₁, .error e) ∧ Changed fs fs₁ p.volume t) ∨
    (p.replaces = false ∧ backUpDestination o fs p = (fs, .ok none)) ∨
    (p.replaces = true ∧ o .renameBackup = none ∧ ∃ fs₁ fs₂ sequence h,
      findRenameBackupUnlocked o fs p.volume 256 0 = (fs₂, .ok (backupName p.volume sequence)) ∧
      backUpDestination o fs p = (fs₁, .ok (some (backupName p.volume sequence))) ∧
      Changed fs fs₁ p.volume (t.move k' [backupKey sequence] h)) := by
  subst ht
  unfold backUpDestination
  cases hr : p.replaces with
  | false => exact Or.inr (Or.inl ⟨rfl, by simp⟩)
  | true =>
    obtain ⟨seq, e, hfind, hname⟩ := findRenameBackupUnlocked_spec o fs p.volume 256 0
    have hseq := changed_sequence fs p.volume seq
    cases e with
    | error e => exact Or.inl ⟨_, e, by simp [hfind], hseq⟩
    | ok backup =>
      obtain ⟨sequence, rfl⟩ := hname backup rfl
      have hne : k' ≠ [] := by
        rintro rfl
        simp [hr] at hd
      have hout : p.destinationIsDirectory = true → k' <+: [backupKey sequence] →
          [backupKey sequence] = k' := fun _ hpre => (prefix_singleton hpre hne).symm
      rcases renameEntryUnlocked_changed o (o .renameBackup) p.destinationIsDirectory
          hseq.self (hseq.located hq)
          (hseq.located (backupName_located hq.mounted sequence)) hout with
        ⟨e, hfail⟩ | ⟨fs₁, h, hf, hok, hch⟩
      · exact Or.inl ⟨_, e, by simp [hfind, hfail], hseq⟩
      · exact Or.inr (Or.inr ⟨rfl, hf, fs₁, _, sequence, h, hfind, by simp [hfind, hok],
          hseq.trans hch⟩)

/-- Whether the backup can be deleted was settled before anything moved. -/
theorem deletable_backup {fs₁ fs₂ : FileSystem} {v : Volume} {b : Name} (directory : Bool)
    {h : (fs.fx.media v).Movable k' [b]} {h' : ((fs.fx.media v).move k' [b] h).Movable k k'}
    (hk : (fs.fx.media v).find? k ≠ none) (hne : k' ≠ k)
    (h₁ : Changed fs fs₁ v ((fs.fx.media v).move k' [b] h))
    (h₂ : Changed fs₁ fs₂ v (((fs.fx.media v).move k' [b] h).move k k' h')) :
    Deletable fs₂.fx v [b] directory ↔ Deletable fs.fx v k' directory := by
  obtain ⟨hb, hk'b⟩ := backup_free h h' hne
  have hmove : ∀ s, (fs₂.fx.media v).find? (b :: s) = (fs.fx.media v).find? (k' ++ s) := by
    intro s
    rw [h₂.self, find?_move_other _ h' (backup_apart hb hk s) (backup_apart hb h.1 s)]
    exact find?_move_new _ h s
  have hleaf : (fs₂.fx.media v).Leaf [b] ↔ (fs.fx.media v).Leaf k' := by
    rw [Tree.Leaf, Tree.Leaf, children_eq_nil_iff, children_eq_nil_iff]
    exact forall_congr' fun a => by rw [← hmove [a]]; rfl
  have hfind := hmove []
  rw [List.append_nil] at hfind
  have hopen : fs₂.fx.opened = fs.fx.opened := h₂.opened.trans h₁.opened
  simp only [Deletable, hfind, hleaf, FileX.isOpen, hopen]

theorem restoreDestination_same {fs₁ : FileSystem} {sequence : Nat} {e : Errno}
    {h : (fs.fx.media p.volume).Movable k' [backupKey sequence]} (hp : Planned fs p k k')
    (hch : Changed fs fs₁ p.volume ((fs.fx.media p.volume).move k' [backupKey sequence] h)) :
    (∃ e', renameEntryUnlocked o (o .renameRestore) fs₁ p.destinationIsDirectory
        (backupName p.volume sequence) p.newName = (fs₁, some e')) ∨
    ∃ fs₂ t, restoreDestination o fs₁ p (some (backupName p.volume sequence)) e =
        (fs₂, some e) ∧ Changed fs fs₂ p.volume t ∧
      ∀ c, t.find? c = (fs.fx.media p.volume).find? c := by
  have hout : p.destinationIsDirectory = true → [backupKey sequence] <+: k' →
      k' = [backupKey sequence] := by
    rintro _ ⟨r, hr⟩
    rcases h.2 with hsame | ⟨_, hfree⟩
    · exact hsame.symm
    · exact absurd (hr ▸ find?_none_below hfree.1 hfree.2.1 r) h.1
  rcases renameEntryUnlocked_changed o (o .renameRestore) _ hch.self
      (hch.located (backupName_located hp.newName.mounted sequence)) (hch.located hp.newName)
      hout with ⟨e', hfail⟩ | ⟨fs₂, hb, _, hok, hch₂⟩
  · exact Or.inl ⟨e', hfail⟩
  · exact Or.inr ⟨fs₂, _, by simp [restoreDestination, hok], hch.trans hch₂,
      find?_move_back _ h hb⟩

theorem renameSource_effect {fs₀ fs₁ fs₂ : FileSystem} {sequence : Nat}
    {h : (fs.fx.media p.volume).Movable k' [backupKey sequence]} (hp : Planned fs p k k')
    (hr : p.replaces = true) (hflush : flushSource o fs p = (fs₀, none))
    (hflushed : Changed fs fs₀ p.volume (fs.fx.media p.volume))
    (hfind : findRenameBackupUnlocked o fs₀ p.volume 256 0 =
      (fs₂, .ok (backupName p.volume sequence))) (hbackup : o .renameBackup = none)
    (hback : backUpDestination o fs₀ p = (fs₁, .ok (some (backupName p.volume sequence))))
    (hch : Changed fs fs₁ p.volume ((fs.fx.media p.volume).move k' [backupKey sequence] h)) :
    RenameEffect o fs p k k'
      (renameSource o fs₁ p (some (backupName p.volume sequence))) := by
  obtain ⟨n, hn, _⟩ := hp.source
  obtain ⟨hne, _⟩ := hp.destination hr
  unfold renameSource
  rcases renameEntryUnlocked_changed o (o .renameSource) _ hch.self (hch.located hp.oldName)
      (hch.located hp.newName) hp.outside with ⟨e, hfail⟩ | ⟨fs₂, h', hsource, hok, hch₂⟩
  · rw [hfail]
    rcases restoreDestination_same (o := o) (e := e) hp hch with
      ⟨e', hlost⟩ | ⟨fs₂, t, hres, hch₂, hsame⟩
    · have hrestore : RestoreFails o fs p :=
        ⟨fs₀, fs₁, _, e, hflush, hback, hfail, by simp [hlost]⟩
      simp only [restoreDestination, hlost]
      exact .displaced hr hrestore hch
    · simp only [hres]
      exact .unmoved hch₂ hsame (by simp)
  · have hdel := deletable_backup p.destinationIsDirectory (by simp [hn]) hne hch hch₂
    simp only [hok, deleteBackup]
    have hloc := (hch.trans hch₂).located (backupName_located hp.newName.mounted sequence)
    rcases deleteEntryUnlocked_changed o (o .deleteBackup) p.destinationIsDirectory hch₂.self hloc with
      ⟨e, hfail, hwhy⟩ | ⟨fs₃, hl, hfault, hdeleted, hgone, hch₃⟩
    · rw [hfail]
      have hfree : informationUnlocked o none fs₀ (backupName p.volume sequence) = .error .enoent := by
        rw [informationUnlocked_located o none
          (hflushed.located (backupName_located hp.newName.mounted sequence))
          (backupName_fits _ _) (by simp), hflushed.self, (backup_free h h' hne).1]
      exact .stranded hr ⟨fs₀, _, _, hflush, hfind, hfree, hbackup, hsource⟩ (hwhy.imp_right fun hno => mt hdel.mpr hno) (hch.trans hch₂)
    · rw [hgone]
      exact .replaced hr ⟨hfault, hdel.mp hdeleted⟩ ((hch.trans hch₂).trans hch₃)

theorem renameCommit_effect (hp : Planned fs p k k') :
    RenameEffect o fs p k k' (renameCommit o fs p) := by
  have hflushed := flushSource_changed o fs p
  unfold renameCommit
  rcases hf : flushSource o fs p with ⟨fs₀, _ | e⟩ <;> rw [hf] at hflushed
  · have hd : p.replaces = true → (fs.fx.media p.volume).find? k' ≠ none := fun hr => by
      obtain ⟨n, hn, _⟩ := (hp.destination hr).2.2.1
      simp [hn]
    simp only
    rcases backUpDestination_cases (o := o) hflushed.self (hflushed.located hp.newName) hd with
      ⟨fs₁, e, hb, hch⟩ | ⟨hr, hb⟩ | ⟨hr, hbackup, fs₁, fs₂, sequence, h, hfind, hb, hch⟩
    · rw [hb]
      exact .unmoved (hflushed.trans hch) (fun _ => rfl) (by simp)
    · simp only [hb]
      by_cases hsame : p.oldName = p.newName
      · simp only [RenamePlan.spellingChanged, hsame, ne_eq, not_true, decide_false,
          Bool.false_eq_true, if_false]
        exact .unmoved hflushed (fun _ => rfl) fun _ => (hp.oldName.unique (hsame ▸ hp.newName)).2
      · simp only [RenamePlan.spellingChanged, ne_eq, hsame, not_false_iff, decide_true, if_true]
        unfold renameSource
        rcases renameEntryUnlocked_changed o (o .renameSource) _ hflushed.self
            (hflushed.located hp.oldName) (hflushed.located hp.newName) hp.outside with
          ⟨e, hfail⟩ | ⟨fs₂, h, _, hok, hch⟩
        · simp only [hfail, restoreDestination]
          exact .unmoved hflushed (fun _ => rfl) (by simp)
        · simp only [hok, deleteBackup]
          exact .moved hr (hflushed.trans hch)
    · have hsame : p.oldName ≠ p.newName := fun hs => by simp [hp.sameName hs] at hr
      simp only [hb, RenamePlan.spellingChanged, ne_eq, hsame, not_false_iff, decide_true, if_true]
      exact renameSource_effect hp hr hf hflushed hfind hbackup hb (hflushed.trans hch)
  · exact .unmoved hflushed (fun _ => rfl) (by simp)

/-- Every entry outside a replaced destination survives: where it was, or, when the stored
paths were migrated, under its rebased path. -/
theorem RenameEffect.survives {r : FileSystem × Option Errno} (he : RenameEffect o fs p k k' r)
    (hp : Planned fs p k k') :
    (∃ t, Changed fs r.1 p.volume t ∧ ∀ c n, (fs.fx.media p.volume).find? c = some n →
      (p.replaces = true → ¬ k' <+: c) → t.find? c = some n) ∨
    ∃ fs₁ t, r.1 = migratePaths fs₁ p ∧ Changed fs fs₁ p.volume t ∧
      ∀ c n, (fs.fx.media p.volume).find? c = some n → (p.replaces = true → ¬ k' <+: c) →
        t.find? (rebase k k' c) = some n := by
  cases he with
  | unmoved hch hsame _ => exact Or.inl ⟨_, hch, fun c n hc _ => (hsame c).trans hc⟩
  | @displaced _ _ b h hr _ hch =>
    refine Or.inl ⟨_, hch, fun c n hc hout => ?_⟩
    simpa [rebase_outside [b] (hout hr)] using find?_move_rebase h hc
  | moved _ hch => exact Or.inr ⟨_, _, rfl, hch, fun c n hc _ => find?_move_rebase _ hc⟩
  | @replaced _ b h h' hl hr _ hch =>
    refine Or.inr ⟨_, _, rfl, hch, fun c n hc hout => ?_⟩
    obtain ⟨hb, hk'b⟩ := backup_free h h' (hp.destination hr).1
    have hmoved := find?_move_rebase h hc
    rw [rebase_outside [b] (hout hr)] at hmoved
    rw [find?_erase_ne, find?_move_rebase h' hmoved]
    intro heq
    by_cases hkc : k <+: c
    · obtain ⟨s, rfl⟩ := hkc
      rw [rebase_append] at heq
      exact hk'b ⟨s, heq⟩
    · rw [rebase_outside k' hkc] at heq
      simp [heq, hb] at hc
  | @stranded _ _ b h h' hr _ _ hch =>
    refine Or.inr ⟨_, _, rfl, hch, fun c n hc hout => ?_⟩
    have hmoved := find?_move_rebase h hc
    rw [rebase_outside [b] (hout hr)] at hmoved
    exact find?_move_rebase h' hmoved

theorem find?_move_origin {t : Tree Name ObjectId} {k k' c : List Name} {n : Node ObjectId}
    (h : t.Movable k k') (hn : (t.move k k' h).find? c = some n) :
    ∃ q, t.find? q = some n := by
  obtain ⟨q, _, hq⟩ := (find?_move_iff t h c n).mp hn
  exact ⟨q, hq⟩

/-- No object appears, and the open files stay as they are. -/
structure SameObjects (fx fx' : FileX) : Prop where
  origin : ∀ v c n, (fx'.media v).find? c = some n → ∃ q, (fx.media v).find? q = some n
  opened : fx'.opened = fx.opened
  nextHandle : fx'.nextHandle = fx.nextHandle
  nextObject : fx'.nextObject = fx.nextObject
  content : fx'.content = fx.content

theorem Changed.sameObjects {fs' : FileSystem} {v : Volume} {t : Tree Name ObjectId}
    (hch : Changed fs fs' v t)
    (ht : ∀ c n, t.find? c = some n → ∃ q, (fs.fx.media v).find? q = some n) :
    SameObjects fs.fx fs'.fx := by
  refine ⟨fun w c n hn => ?_, hch.opened, hch.nextHandle, hch.nextObject, hch.content⟩
  by_cases hw : w = v
  · subst hw
    rw [hch.self] at hn
    exact ht c n hn
  · rw [hch.other hw] at hn
    exact ⟨c, hn⟩

theorem RenameEffect.sameObjects {r : FileSystem × Option Errno}
    (he : RenameEffect o fs p k k' r) : SameObjects fs.fx r.1.fx := by
  cases he with
  | unmoved hch hsame _ => exact hch.sameObjects fun c n hn => ⟨c, (hsame c).symm.trans hn⟩
  | @displaced _ _ b h _ _ hch => exact hch.sameObjects fun c n hn => find?_move_origin h hn
  | @moved _ h _ hch => exact hch.sameObjects fun c n hn => find?_move_origin h hn
  | @replaced _ b h h' hl _ _ hch =>
    refine hch.sameObjects fun c n hn => ?_
    by_cases hc : c = [b]
    · rw [hc, find?_erase_self] at hn
      cases hn
    · rw [find?_erase_ne _ hl hc] at hn
      obtain ⟨q, hq⟩ := find?_move_origin h' hn
      exact find?_move_origin h hq
  | @stranded _ _ b h h' _ _ _ hch =>
    refine hch.sameObjects fun c n hn => ?_
    obtain ⟨q, hq⟩ := find?_move_origin h' hn
    exact find?_move_origin h hq

end

end SimPLCity.NamespaceEffects
