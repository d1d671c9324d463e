import SimPLCity.NamespaceEffects
import SimPLCity.Runs

/-! Rename as a transaction: it has its whole effect on the map from paths to objects,
or none. The one exit that breaks this is the deletion of the backup, which comes
after the source has been moved and can still fail. -/

namespace SimPLCity.RenameTransaction
open PathText FileXVolume PathTree FileDescriptors FileNamespace LocatedPaths NamespaceEffects

/-- `k` with everything below it is now at `k'`, and nothing else has changed. -/
structure Moved (t t' : Tree Name ObjectId) (k k' : List Name) : Prop where
  new : ∀ s, t'.find? (k' ++ s) = t.find? (k ++ s)
  old : k ≠ k' → ∀ s, t'.find? (k ++ s) = none
  other : ∀ c, ¬ k <+: c → ¬ k' <+: c → t'.find? c = t.find? c

section
variable {t t' : Tree Name ObjectId} {k k' : List Name} {b : Name}

theorem Moved.of_same (h : ∀ c, t'.find? c = t.find? c) : Moved t t' k k :=
  ⟨fun _ => h _, fun hne => absurd rfl hne, fun c _ _ => h c⟩

theorem Moved.of_move (h : t.Movable k k') : Moved t (t.move k k' h) k k' :=
  ⟨find?_move_new t h, fun hne s => find?_move_old t h ⟨s, rfl⟩ (movable_apart h hne s),
    fun _ => find?_move_other t h⟩

theorem Moved.of_replace (h : t.Movable k' [b]) (h' : (t.move k' [b] h).Movable k k')
    (hl : ((t.move k' [b] h).move k k' h').Leaf [b]) (hk : t.find? k ≠ none) (hne : k' ≠ k) :
    Moved t (((t.move k' [b] h).move k k' h').erase [b] hl) k k' := by
  obtain ⟨hb, hk'b⟩ := backup_free h h' hne
  have happart := movable_apart h' (Ne.symm hne)
  refine ⟨fun s => ?_, fun hkk s => ?_, fun c hkc hk'c => ?_⟩
  · rw [find?_erase_ne, find?_replace_new h h' hk hne s]
    exact fun heq => hk'b ⟨s, heq⟩
  · rw [find?_erase_ne, find?_move_old _ h' ⟨s, rfl⟩ (happart s)]
    exact fun heq => backup_not_above hb hk s (heq ▸ List.prefix_rfl)
  · by_cases hbc : [b] <+: c
    · -- the backup and what was below it: nothing, before and after
      obtain ⟨s, rfl⟩ := hbc
      rw [find?_none_below (by simp) hb s]
      by_cases hs : s = []
      · simp [hs]
      · rw [find?_erase_ne _ hl (by simpa using hs)]
        exact find?_none_of_childless ((children_eq_nil_iff _ _).mp hl) hs
    · rw [find?_erase_ne, find?_move_other _ h' hkc hk'c, find?_move_other _ h hk'c hbc]
      exact fun heq => hbc (heq ▸ List.prefix_rfl)

theorem Moved.no_new (h : Moved t t' k k') {c : List Name} (hc : t'.find? c ≠ none) :
    t.find? c ≠ none ∨ k' <+: c := by
  by_cases hk' : k' <+: c
  · exact Or.inr hk'
  · by_cases hk : k <+: c
    · obtain ⟨s, rfl⟩ := hk
      by_cases hne : k = k'
      · exact absurd ⟨s, by rw [hne]⟩ hk'
      · exact absurd (h.old hne s) hc
    · rw [h.other c hk hk'] at hc
      exact Or.inl hc

end

def SameEntries (fs fs' : FileSystem) : Prop :=
  ∀ v c, (fs'.fx.media v).find? c = (fs.fx.media v).find? c

/-- What a successful rename does. -/
structure Renamed (fs fs' : FileSystem) (oldName newName : CStr) (v : Volume)
    (k k' : List Name) : Prop where
  oldLocated : Located fs.mounted oldName v k
  newLocated : Located fs.mounted newName v k'
  source : (fs.fx.media v).find? k ≠ none
  moved : Moved (fs.fx.media v) (fs'.fx.media v) k k'
  otherVolumes : ∀ w, w ≠ v → fs'.fx.media w = fs.fx.media w
  noBackup : ∀ sequence, (fs'.fx.media v).find? [backupKey sequence] ≠ none →
    (fs.fx.media v).find? [backupKey sequence] ≠ none ∨ k' = [backupKey sequence]

/-- All of the effect or, unless the destination could not be restored, nothing. -/
def Transaction (o : Outcomes) (fs : FileSystem) (oldPath newPath : CStr) : Prop :=
  match sysRename o fs oldPath newPath with
  | (fs', .ok _) => ∃ oldName newName v k k',
      normalizePathUnlocked fs.currentDirectory oldPath = .ok oldName ∧
      normalizePathUnlocked fs.currentDirectory newPath = .ok newName ∧
      Renamed fs fs' oldName newName v k k'
  | (fs', .error _) => SameEntries fs fs' ∨
      ∃ p, renameChecks o fs oldPath newPath = .ok p ∧ RestoreFails o fs p

/-- An existing destination is to be replaced, everything goes through, but FileX does
not delete it: the call fails, its handle is still open or it is a directory with entries. -/
def BackupStays (o : Outcomes) (fs : FileSystem) (oldPath newPath : CStr) : Prop :=
  ∃ p k', renameChecks o fs oldPath newPath = .ok p ∧ p.replaces = true ∧
    Located fs.mounted p.newName p.volume k' ∧ ReachesDeletion o fs p ∧
    (o .deleteBackup ≠ none ∨ ¬ Deletable fs.fx p.volume k' p.destinationIsDirectory)

section
variable {o : Outcomes} {fs fs' : FileSystem} {p : RenamePlan} {k k' : List Name}

theorem Renamed.of_changed {fs₁ : FileSystem} {t : Tree Name ObjectId} (hp : Planned fs p k k')
    (hch : Changed fs fs₁ p.volume t) (hfx : fs'.fx = fs₁.fx)
    (hm : Moved (fs.fx.media p.volume) t k k') :
    Renamed fs fs' p.oldName p.newName p.volume k k' := by
  obtain ⟨n, hn, _⟩ := hp.source
  refine ⟨hp.oldName, hp.newName, by simp [hn], ?_, fun w hw => ?_, ?_⟩
  · rwa [hfx, hch.self]
  · rw [hfx, hch.other hw]
  · intro sequence hfound
    rw [hfx, hch.self] at hfound
    exact (hm.no_new hfound).imp_right fun hpre => prefix_singleton hpre hp.newEntry

theorem sameEntries_of_changed {v : Volume} {t : Tree Name ObjectId} (hch : Changed fs fs' v t)
    (hsame : ∀ c, t.find? c = (fs.fx.media v).find? c) : SameEntries fs fs' := by
  intro w c
  by_cases hw : w = v
  · rw [hw, hch.self, hsame]
  · rw [hch.other hw]

theorem transaction_of_planned {oldPath newPath : CStr} (hc : renameChecks o fs oldPath newPath = .ok p)
    (hstays : ¬ BackupStays o fs oldPath newPath) : Transaction o fs oldPath newPath := by
  obtain ⟨hold, hnew, k, k', hp⟩ := renameChecks_ok hc
  obtain ⟨n, hn, _⟩ := hp.source
  have hk : (fs.fx.media p.volume).find? k ≠ none := by simp [hn]
  have he := renameCommit_effect (o := o) hp
  simp only [Transaction, sysRename, hc]
  generalize renameCommit o fs p = r at he
  cases he with
  | @unmoved fs' e t hch hsame hsuccess =>
    cases e with
    | none =>
      obtain rfl := hsuccess rfl
      exact ⟨_, _, _, _, _, hold, hnew, .of_changed hp hch rfl (.of_same hsame)⟩
    | some e => exact Or.inl (sameEntries_of_changed hch hsame)
  | displaced _ hrestore _ => exact Or.inr ⟨p, rfl, hrestore⟩
  | @moved fs' h _ hch =>
    exact ⟨_, _, _, _, _, hold, hnew, .of_changed hp hch rfl (.of_move h)⟩
  | @replaced fs' b h h' hl hr _ hch =>
    exact ⟨_, _, _, _, _, hold, hnew,
      .of_changed hp hch rfl (.of_replace h h' hl hk (hp.destination hr).1)⟩
  | stranded hr hreached hkept _ =>
    exact absurd ⟨p, k', hc, hr, hp.newName, hreached, hkept⟩ hstays

theorem source_outside (hp : Planned fs p k k') (hr : p.replaces = true) : ¬ k' <+: k := by
  obtain ⟨n, hn, _⟩ := hp.source
  obtain ⟨hne, _, ⟨m, hm, hmd⟩, hvacant⟩ := hp.destination hr
  cases hd : m.directory with
  | true =>
    exact not_below_vacant hp.oldName (hvacant (by rw [← hmd, hd])) (by simp [hn]) hne
  | false =>
    rintro ⟨s, rfl⟩
    have hs : s ≠ [] := by
      rintro rfl
      exact hne (by simp)
    simp [find?_none_of_childless (childless_of_file hm hd) hs] at hn

theorem movable_source {b : Name} {n : Node ObjectId} (hp : Planned fs p k k')
    (hr : p.replaces = true) (hn : (fs.fx.media p.volume).find? k = some n)
    (h : (fs.fx.media p.volume).Movable k' [b]) (hb : (fs.fx.media p.volume).find? [b] = none) :
    ((fs.fx.media p.volume).move k' [b] h).find? k = some n ∧
      ((fs.fx.media p.volume).move k' [b] h).Movable k k' := by
  obtain ⟨hne, _, ⟨m, hm, _⟩, _⟩ := hp.destination hr
  have hsource : ((fs.fx.media p.volume).move k' [b] h).find? k = some n := by
    simpa [rebase_outside [b] (source_outside hp hr)] using find?_move_rebase h hn
  have hin : ¬ k <+: k' := by
    rintro ⟨s, rfl⟩
    have hs : s ≠ [] := by
      rintro rfl
      exact hne (by simp)
    obtain ⟨n', hn', hnd⟩ := hp.source
    have hdir := ancestor_isDirectory hm hs
    rw [isDirectory_of_find? hn', hnd] at hdir
    exact hne (hp.outside hdir ⟨s, rfl⟩)
  have hbk' : ∀ q, q <+: k' → ¬ [b] <+: q := by
    rintro q hq hbq
    obtain ⟨r, rfl⟩ := hbq.trans hq
    exact h.1 (find?_none_below (by simp) hb r)
  refine ⟨hsource, by simp [hsource], Or.inr ⟨hin, hp.newEntry, ?_, ?_⟩⟩
  · exact find?_move_old _ h List.prefix_rfl (hbk' k' List.prefix_rfl)
  · obtain ⟨q, a, rfl⟩ := (List.eq_nil_or_concat' k').resolve_left hp.newEntry
    rw [List.dropLast_concat]
    by_cases hq : q = []
    · simp [hq]
    · have hdir := (isDirectory_iff _ q).mp (parent_isDirectory hm)
      have hqa : ¬ q ++ [a] <+: q := fun hpre => by
        have := hpre.length_le
        rw [List.length_append, List.length_singleton] at this
        omega
      rw [isDirectory_iff, find?_move_other _ h hqa (hbk' q (List.prefix_append q [a]))]
      exact hdir

theorem renameCommit_of_backupStays (hp : Planned fs p k k') (hr : p.replaces = true)
    (hreached : ReachesDeletion o fs p)
    (hstays : o .deleteBackup ≠ none ∨ ¬ Deletable fs.fx p.volume k' p.destinationIsDirectory) :
    ¬ RestoreFails o fs p ∧ ∃ fs₁ t b e, renameCommit o fs p = (migratePaths fs₁ p, some e) ∧
      Changed fs fs₁ p.volume t ∧ t.find? [b] ≠ none ∧
        (fs.fx.media p.volume).find? [b] = none := by
  obtain ⟨fs₀, fs₁, backup, hflush, hfind, hfree, hbackup, hsource⟩ := hreached
  obtain ⟨hne, _, ⟨m, hm, hmd⟩, _⟩ := hp.destination hr
  obtain ⟨n, hn, hnd⟩ := hp.source
  have hch₀ := flushSource_changed o fs p
  rw [hflush] at hch₀
  obtain ⟨sequence, rfl⟩ : ∃ sequence, backup = backupName p.volume sequence := by
    obtain ⟨_, e, hspec, hname⟩ := findRenameBackupUnlocked_spec o fs₀ p.volume 256 0
    rw [hfind] at hspec
    exact hname backup (congrArg Prod.snd hspec).symm
  have hch₁ : Changed fs fs₁ p.volume (fs.fx.media p.volume) := by
    obtain ⟨seq, e, hspec, _⟩ := findRenameBackupUnlocked_spec o fs₀ p.volume 256 0
    rw [hfind] at hspec
    obtain rfl := congrArg Prod.fst hspec
    have := hch₀.trans (changed_sequence fs₀ p.volume seq)
    rwa [hch₀.self] at this
  have hloc := backupName_located hp.newName.mounted (v := p.volume) sequence
  have hb : (fs.fx.media p.volume).find? [backupKey sequence] = none := by
    rw [informationUnlocked_located o none (hch₀.located hloc) (backupName_fits _ _) (by simp),
      hch₀.self] at hfree
    by_contra hne
    obtain ⟨x, hx⟩ := Option.ne_none_iff_exists'.mp hne
    simp [hx] at hfree
  have hout : ¬ k' <+: [backupKey sequence] := fun hpre => by
    rw [prefix_singleton hpre hp.newEntry, hb] at hm
    cases hm
  have h : (fs.fx.media p.volume).Movable k' [backupKey sequence] :=
    ⟨by simp [hm], Or.inr ⟨hout, by simp, hb, by simp⟩⟩
  obtain ⟨hn₂, h'⟩ := movable_source hp hr hn h hb
  obtain ⟨fs₂, hok₂, hch₂⟩ := renameEntryUnlocked_movable o hch₁.self (hch₁.located hp.newName)
    (hch₁.located hloc) hm hmd h
  have hch₂ := hch₁.trans hch₂
  have hback : backUpDestination o fs₀ p =
      (fs₂, .ok (some (backupName p.volume sequence))) := by
    simp [backUpDestination, hr, hfind, hbackup, hok₂]
  obtain ⟨fs₃, hok₃, hch₃⟩ := renameEntryUnlocked_movable o hch₂.self (hch₂.located hp.oldName)
    (hch₂.located hp.newName) hn₂ hnd h'
  have hsame : p.oldName ≠ p.newName := fun hs => by simp [hp.sameName hs] at hr
  refine ⟨?_, ?_⟩
  · rintro ⟨_, _, _, e, hflush', hback', hfail, _⟩
    obtain rfl : fs₀ = _ := congrArg Prod.fst (hflush.symm.trans hflush')
    obtain rfl : fs₂ = _ := congrArg Prod.fst (hback.symm.trans hback')
    rw [hsource, hok₃] at hfail
    cases hfail
  · have hdel := deletable_backup p.destinationIsDirectory (by simp [hn]) hne hch₂ hch₃
    have hch₃ := hch₂.trans hch₃
    rcases deleteEntryUnlocked_changed o (o .deleteBackup) p.destinationIsDirectory hch₃.self (hch₃.located hloc) with
      ⟨e, hfail, _⟩ | ⟨_, _, hfault, hdeleted, _⟩
    · refine ⟨fs₃, _, backupKey sequence, e, ?_, hch₃, ?_, hb⟩
      · simp [renameCommit, hflush, hback, RenamePlan.spellingChanged, hsame, renameSource,
          hsource, hok₃, deleteBackup, hfail]
      · rw [find?_move_other _ h' (backup_apart hb (by simp [hn]) []) hout]
        have := find?_move_new _ h []
        simp only [List.append_nil] at this
        simp [this, hm]
    · exact absurd (hdel.mp hdeleted) (hstays.resolve_left (by simp [hfault]))

theorem not_transaction_of_backupStays {oldPath newPath : CStr}
    (hstays : BackupStays o fs oldPath newPath) : ¬ Transaction o fs oldPath newPath := by
  obtain ⟨p, k', hc, hr, hnew, hreached, hwhy⟩ := hstays
  obtain ⟨_, _, k, l, hp⟩ := renameChecks_ok hc
  obtain rfl : k' = l := (hnew.unique hp.newName).2
  obtain ⟨hrestored, fs₁, t, b, e, hcommit, hch, hleft, hfree⟩ :=
    renameCommit_of_backupStays hp hr hreached hwhy
  simp only [Transaction, sysRename, hc, hcommit, errorOf]
  rintro (hsame | ⟨_, heq, hrestore⟩)
  · have := hsame p.volume [b]
    rw [show (migratePaths fs₁ p).fx = fs₁.fx from rfl, hch.self, hfree] at this
    exact hleft this
  · cases heq
    exact hrestored hrestore

theorem sysRename_transaction_iff (o : Outcomes) (fs : FileSystem) (oldPath newPath : CStr) :
    Transaction o fs oldPath newPath ↔ ¬ BackupStays o fs oldPath newPath := by
  constructor
  · exact fun ht hstays => not_transaction_of_backupStays hstays ht
  · intro hstays
    cases hc : renameChecks o fs oldPath newPath with
    | error e =>
      simp only [Transaction, sysRename, hc]
      exact Or.inl fun _ _ => rfl
    | ok p => exact transaction_of_planned hc hstays

end

def deleteFails : Outcomes where
  toService := filex
  fault
    | .deleteBackup => some .ioError
    | _ => none

/-- `/flash/a` and `/flash/b`, both closed. -/
def twoFiles : FileSystem :=
  Runs.run stepCall emptyVolumes
    [(quiet, .open ['a'] ⟨.wronly, true, false, false, false⟩), (quiet, .close 3),
      (quiet, .open ['b'] ⟨.wronly, true, false, false, false⟩), (quiet, .close 3)]

set_option maxRecDepth 100000 in
/-- The call reports EIO, but `a` has become `b` and the old `b` is `FXR00000.TMP`. -/
theorem sysRename_reports_error_after_move :
    ¬ Transaction deleteFails twoFiles ['a'] ['b'] := by
  have herror : (sysRename deleteFails twoFiles ['a'] ['b']).2 = .error .eio := by decide
  have hfound : ((sysRename deleteFails twoFiles ['a'] ['b']).1.fx.media .flash).find? [['A']] ≠
      (twoFiles.fx.media .flash).find? [['A']] := by decide
  have hchecks : renameChecks deleteFails twoFiles ['a'] ['b'] =
      .ok ⟨"/flash/a".toList, "/flash/b".toList, .flash, false, true, false⟩ := by decide
  have hmoved : ∀ p, renameChecks deleteFails twoFiles ['a'] ['b'] = .ok p →
      (renameEntryUnlocked deleteFails none
        (backUpDestination deleteFails (flushSource deleteFails twoFiles p).1 p).1
        p.sourceIsDirectory p.oldName p.newName).2 = none := by
    intro p hp
    obtain rfl := Except.ok.inj (hchecks.symm.trans hp)
    decide
  intro h
  rcases hr : sysRename deleteFails twoFiles ['a'] ['b'] with ⟨fs', r⟩
  rw [hr] at herror hfound
  simp only at herror hfound
  rw [Transaction, hr, herror] at h
  rcases h with hsame | ⟨p, hp, fs₁, fs₂, backup, e, hflush, hback, hfail, _⟩
  · exact hfound (hsame .flash [['A']])
  · have := hmoved p hp
    rw [hflush, hback] at this
    rw [show deleteFails .renameSource = none from rfl] at hfail
    rw [hfail] at this
    cases this

end SimPLCity.RenameTransaction
