import SimPLCity.CallEffects

/-! What a failing open leaves behind. The roll-back closes the handle and gives the slot back,
but not the entry that the call created, nor a handle whose close fails. -/

namespace SimPLCity.OpenRollback
open PathText FileXVolume PathTree FileDescriptors FileNamespace LocatedPaths HandleSteps CallEffects

/-- The entries, the contents and the descriptors in use are as before, no slot and no handle has
been added. -/
structure Untouched (fs fs' : FileSystem) : Prop where
  entries : fs'.fx.media = fs.fx.media
  contents : fs'.fx.content = fs.fx.content
  descriptors : ∀ i, (fs.descriptors i).allocated = true → fs'.descriptors i = fs.descriptors i
  slots : ∀ i, (fs'.descriptors i).allocated = true → (fs.descriptors i).allocated = true
  handles : fs'.fx.opened.Sublist fs.fx.opened

def FailureChangesNothing (o : Outcomes) (fs : FileSystem) (path : CStr) (flags : OpenFlags) :
    Prop :=
  ∀ e, (sysOpen o fs path flags).2 = .error e → Untouched fs (sysOpen o fs path flags).1

def initialMode (flags : OpenFlags) : OpenMode :=
  if flags.access ≠ .rdonly then .write else .read

/-- FileX opens the file `object`. -/
def Opens (o : Outcomes) (fx : FileX) (flags : OpenFlags) (object : ObjectId) : Prop :=
  o .fileOpen = none ∧ fx.conflicts object (initialMode flags) = false

/-- A FileX call behind the one that opens the file fails. -/
def FailsOpened (o : Outcomes) (flags : OpenFlags) : Prop :=
  o .modeSeek ≠ none ∨ flags.access ≠ .rdonly ∧ flags.trunc = true ∧ o .truncate ≠ none

instance (o : Outcomes) (fx : FileX) (flags : OpenFlags) (object : ObjectId) :
    Decidable (Opens o fx flags object) := inferInstanceAs (Decidable (_ ∧ _))

instance (o : Outcomes) (flags : OpenFlags) : Decidable (FailsOpened o flags) :=
  inferInstanceAs (Decidable (_ ∨ _ ∧ _ ∧ _))

/-- No FileX call fails once the missing file has been created, and where a call fails once an
existing file has been opened, the close of the roll-back does not. -/
def RollsBack (o : Outcomes) (fs : FileSystem) (path : CStr) (flags : OpenFlags) : Prop :=
  ∀ p r slot info, openChecks o fs path flags = .ok (p, r, slot, info) →
    (info = none → o .fileCreate = none → (fs.fx.media r.volume).Free (pathKey r.localPath) →
      Opens o fs.fx flags fs.fx.nextObject ∧ ¬ FailsOpened o flags) ∧
    (∀ n, info ≠ none → fs.fx.find? r.volume r.localPath = some n → Opens o fs.fx flags n.object →
      FailsOpened o flags → o .fileClose = none)

section
variable {o : Outcomes} {fs : FileSystem} {fx : FileX} {flags : OpenFlags} {path p : CStr}
  {v : Volume} {k : List Name} {n : Node ObjectId} {info : EntryInformation}

/-- What opening the handle of a new descriptor comes to. -/
inductive Attempt (o : Outcomes) (fx : FileX) (flags : OpenFlags) (object : ObjectId) :
    FileX × FileDescriptor × Option Errno → Prop
  | refused {d e} (closed : d.openMode = none) (h : ¬ Opens o fx flags object) :
      Attempt o fx flags object (fx, d, some e)
  | failed {d e media} (isOpen : d.openMode ≠ none) (handle : d.file.handle = fx.nextHandle)
      (h : Opens o fx flags object) (fails : FailsOpened o flags) :
      Attempt o fx flags object
        ({ fx with
            opened := ⟨fx.nextHandle, media, object, initialMode flags⟩ :: fx.opened
            nextHandle := fx.nextHandle + 1 }, d, some e)
  | opened {fx' d} (h : Opens o fx flags object) (fails : ¬ FailsOpened o flags) :
      Attempt o fx flags object (fx', d, none)

theorem openDescriptor_attempt (o : Outcomes) (flags : OpenFlags) (info : EntryInformation) (hn : Names fs path p v k) (hfind : (fx.media v).find? k = some n)
    (hfile : n.directory = false) :
    Attempt o fx flags n.object (openDescriptor o fs fx flags (newDescriptor flags p info)) := by
  obtain ⟨r, hr, hres⟩ := resolveNormalizedPath_located hn.located
  have hroot : (r.virtualRoot || r.mountRoot) = false := by
    rw [hres.virtualRoot, hres.mountRoot, decide_eq_false hn.entry]
    rfl
  have hentry : fx.find? r.volume r.localPath = some n := by
    rw [FileX.find?, hres.volume, hres.key, hfind]
  have hmode : (if (newDescriptor flags p info).writable = true then OpenMode.write else .read) =
      initialMode flags := by
    simp [newDescriptor, initialMode]
  unfold openDescriptor
  rw [hmode, switchMode, if_neg (by simp [newDescriptor])]
  simp only [closeForSwitch, newDescriptor, reopen, hr, hroot, Bool.false_eq_true, if_false]
  cases hopen : o .fileOpen with
  | some f =>
    obtain ⟨e, he⟩ := Option.ne_none_iff_exists'.mp f.filexErrno_ne_none
    obtain ⟨file, hrefused⟩ := o.open_fault f fx r.volume r.localPath (initialMode flags)
    simp only [hrefused, ne_eq, f.status_ne_success, not_false_eq_true, if_true, he]
    refine .refused rfl fun h => ?_
    rw [h.1] at hopen
    cases hopen
  | none =>
    cases hfree : fx.conflicts n.object (initialMode flags) with
    | true =>
      obtain ⟨file, hrefused⟩ := o.open_conflict _ _ _ _ n hentry hfile hfree
      simp only [hrefused, ne_eq, reduceCtorEq, not_false_eq_true, if_true, filexErrno]
      refine .refused rfl fun h => ?_
      rw [h.2] at hfree
      cases hfree
    | false =>
      have hopens : Opens o fx flags n.object := ⟨hopen, hfree⟩
      simp only [o.open_file _ _ _ _ n hentry hfile hfree, ne_eq, not_true, if_false]
      cases hseek : o .modeSeek with
      | some f =>
        obtain ⟨e, he⟩ := Option.ne_none_iff_exists'.mp f.filexErrno_ne_none
        simp only [o.seek_fault, he]
        exact .failed (by simp) rfl hopens (Or.inl (by simp [hseek]))
      | none =>
        have hsuccess : filexErrno .success = none := rfl
        simp only [o.seek_file, hsuccess]
        split
        · rename_i htrunc
          have hboth : flags.access ≠ .rdonly ∧ flags.trunc = true := by simpa using htrunc
          cases hcut : o .truncate with
          | some f =>
            obtain ⟨e, he⟩ := Option.ne_none_iff_exists'.mp f.filexErrno_ne_none
            simp only [o.truncate_fault, he]
            exact .failed (by simp) rfl hopens (Or.inr ⟨hboth.1, hboth.2, by simp [hcut]⟩)
          | none =>
            have hwrite : initialMode flags = .write := if_pos hboth.1
            simp (disch := exact hwrite) only [o.truncate_file, hsuccess]
            exact .opened hopens fun h => h.elim (· hseek) fun h => h.2.2 hcut
        · rename_i htrunc
          exact .opened hopens fun h => h.elim (· hseek) fun h => htrunc (by simp [h.1, h.2.1])

theorem untouched_slot {slot : Fin maximumOpenFiles} (hslot : (fs.descriptors slot).allocated = false)
    (hmedia : fx.media = fs.fx.media) (hcontent : fx.content = fs.fx.content)
    (hhandles : fx.opened.Sublist fs.fx.opened) : Untouched fs (fs.setDescriptor slot fx {}) := by
  refine ⟨hmedia, hcontent, fun i hi => setDescriptor_other fs fx _ ?_, fun i hi => ?_, hhandles⟩
  · rintro rfl
    rw [hslot] at hi
    cases hi
  · by_cases his : i = slot
    · subst his
      rw [setDescriptor_self] at hi
      cases hi
    · rwa [setDescriptor_other fs fx _ his] at hi

theorem close_opened_sublist (file : FxFile) (media : Volume) (object : ObjectId) (mode : OpenMode)
    (hhandle : file.handle = fx.nextHandle) (next : Nat) :
    (o.fxFileClose (o .fileClose)
      { fx with opened := ⟨fx.nextHandle, media, object, mode⟩ :: fx.opened, nextHandle := next }
      file).2.opened.Sublist fx.opened ↔ o .fileClose = none := by
  cases hclose : o .fileClose with
  | some f =>
    refine iff_of_false (fun h => ?_) (by simp)
    rw [o.close_fault] at h
    have hlength : fx.opened.length + 1 ≤ fx.opened.length := h.length_le
    omega
  | none =>
    refine iff_of_true ?_ rfl
    simp only [o.close_file, FileX.closed]
    rw [List.filter_cons_of_neg (by simp [hhandle])]
    exact List.filter_sublist

theorem fxFileClose_media (x : Service) (fault : Option Fault) (fx : FileX) (file : FxFile) :
    (x.fxFileClose fault fx file).2.media = fx.media ∧
      (x.fxFileClose fault fx file).2.content = fx.content := by
  rcases fxFileClose_cases x fault fx file with hclose | hclose <;> rw [hclose]
  · exact ⟨rfl, rfl⟩
  · exact ⟨rfl, rfl⟩

theorem existing_unchanged_iff {r : ResolvedPath} {slot : Fin maximumOpenFiles}
    (hc : openChecks o fs path flags = .ok (p, r, slot, some info))
    (hfind : fs.fx.find? r.volume r.localPath = some n) :
    FailureChangesNothing o fs path flags ↔
      (Opens o fs.fx flags n.object → FailsOpened o flags → o .fileClose = none) := by
  obtain ⟨v, k, hn, hr, hslot, hinfo⟩ := openChecks_ok hc
  obtain ⟨m, hm, hfile, -⟩ := hinfo info rfl
  rw [FileX.find?, hr.volume, hr.key] at hfind
  obtain rfl : m = n := Option.some.inj (hm.symm.trans hfind)
  have hattempt := openDescriptor_attempt o flags info hn hfind hfile
  unfold FailureChangesNothing sysOpen
  simp only [hc, createMissing, ne_eq, not_true, if_false, Option.getD_some]
  generalize openDescriptor o fs fs.fx flags (newDescriptor flags p info) = t at hattempt
  cases hattempt with
  | refused hclosed hopens =>
    refine iff_of_true (fun _ _ => ?_) fun h => absurd h hopens
    simp only [hclosed, Option.isSome_none, Bool.false_eq_true, if_false]
    exact untouched_slot hslot rfl rfl (List.Sublist.refl _)
  | opened hopens hfails => exact iff_of_true (fun e he => by cases he) fun _ h => absurd h hfails
  | failed hopen hhandle hopens hfails =>
    simp only [Option.isSome_iff_ne_none.mpr hopen, if_true]
    obtain ⟨hmedia, hcontent⟩ := fxFileClose_media o (o .fileClose) _ _
    constructor
    · intro h _ _
      exact (close_opened_sublist _ _ _ _ hhandle _).mp (h _ rfl).handles
    · intro h _ _
      exact untouched_slot hslot hmedia hcontent
        ((close_opened_sublist _ _ _ _ hhandle _).mpr (h hopens hfails))

theorem missing_unchanged_iff {r : ResolvedPath} {slot : Fin maximumOpenFiles}
    (hc : openChecks o fs path flags = .ok (p, r, slot, none)) :
    FailureChangesNothing o fs path flags ↔
      (o .fileCreate = none → (fs.fx.media r.volume).Free (pathKey r.localPath) →
        Opens o fs.fx flags fs.fx.nextObject ∧ ¬ FailsOpened o flags) := by
  obtain ⟨v, k, hn, hr, hslot, -⟩ := openChecks_ok hc
  obtain rfl := hr.volume
  obtain rfl := hr.key
  unfold FailureChangesNothing sysOpen
  simp only [hc, createMissing, Calls.fxFileCreate, Option.getD_none]
  rcases createEntry_cases o false (o .fileCreate) fs.fx r.volume r.localPath with
    ⟨st, hst, hcr⟩ | ⟨hfree, hcreate, hcr⟩
  · refine iff_of_true (fun _ _ => ?_) fun hcreate hfree => absurd hcr ?_
    · simp only [hcr, ne_eq, hst, not_false_eq_true, if_true]
      exact ⟨rfl, rfl, fun _ _ => rfl, fun _ => id, List.Sublist.refl _⟩
    · rw [hcreate, o.create_entry _ _ _ _ hfree]
      exact fun h => hst (congrArg Prod.fst h).symm
  · simp only [hcr, ne_eq, not_true, if_false]
    have hfind : ((fs.fx.addEntry r.volume (pathKey r.localPath) false hfree).media r.volume).find?
        (pathKey r.localPath) = some ⟨fs.fx.nextObject, false⟩ := by
      rw [FileX.addEntry, setMedia_media_self]
      exact find?_insert_self ..
    have hattempt := openDescriptor_attempt o flags ⟨0, false⟩ hn hfind rfl
    have hadded : ∀ fs', fs'.fx.media =
        (fs.fx.addEntry r.volume (pathKey r.localPath) false hfree).media →
        ¬ Untouched fs fs' := by
      intro fs' hmedia huntouched
      have hentry := hfree.2.1
      rw [← huntouched.entries, hmedia, FileX.addEntry, setMedia_media_self,
        find?_insert_self] at hentry
      cases hentry
    generalize openDescriptor o fs _ flags _ = t at hattempt
    cases hattempt with
    | refused hclosed hopens =>
      refine iff_of_false (fun h => hadded _ ?_ (h _ rfl)) fun h => hopens (h hcreate hfree).1
      simp only [hclosed, Option.isSome_none, Bool.false_eq_true, if_false, setDescriptor_fx]
    | failed hopen hhandle hopens hfails =>
      refine iff_of_false (fun h => hadded _ ?_ (h _ rfl)) fun h => (h hcreate hfree).2 hfails
      simp only [Option.isSome_iff_ne_none.mpr hopen, if_true, setDescriptor_fx]
      exact (fxFileClose_media _ _ _ _).1
    | opened hopens hfails =>
      exact iff_of_true (fun e he => by cases he) fun _ _ => ⟨hopens, hfails⟩

theorem failing_open_iff (o : Outcomes) (fs : FileSystem) (path : CStr) (flags : OpenFlags) :
    FailureChangesNothing o fs path flags ↔ RollsBack o fs path flags := by
  cases hc : openChecks o fs path flags with
  | error e =>
    refine iff_of_true (fun _ _ => ?_) fun p r slot info h => by rw [hc] at h; cases h
    rw [sysOpen, hc]
    exact ⟨rfl, rfl, fun _ _ => rfl, fun _ => id, List.Sublist.refl _⟩
  | ok q =>
    obtain ⟨p, r, slot, info⟩ := q
    have hrollsBack : RollsBack o fs path flags ↔
        (info = none → o .fileCreate = none → (fs.fx.media r.volume).Free (pathKey r.localPath) →
          Opens o fs.fx flags fs.fx.nextObject ∧ ¬ FailsOpened o flags) ∧
        (∀ n, info ≠ none → fs.fx.find? r.volume r.localPath = some n →
          Opens o fs.fx flags n.object → FailsOpened o flags → o .fileClose = none) := by
      refine ⟨fun h => h p r slot info hc, fun h p' r' slot' info' hc' => ?_⟩
      obtain ⟨rfl, rfl, rfl, rfl⟩ : p = p' ∧ r = r' ∧ slot = slot' ∧ info = info' := by
        simpa using Except.ok.inj (hc.symm.trans hc')
      exact h
    rw [hrollsBack]
    cases info with
    | none =>
      rw [missing_unchanged_iff hc]
      exact ⟨fun h => ⟨fun _ => h, fun _ hinfo => absurd rfl hinfo⟩, fun h => h.1 rfl⟩
    | some i =>
      obtain ⟨v, k, -, hr, -, hinfo⟩ := openChecks_ok hc
      obtain ⟨n, hfind, -, -⟩ := hinfo i rfl
      have hentry : fs.fx.find? r.volume r.localPath = some n := by
        rw [FileX.find?, hr.volume, hr.key, hfind]
      rw [existing_unchanged_iff hc hentry]
      refine ⟨fun h => ⟨fun hnone => absurd hnone (Option.some_ne_none i), fun m _ hm => ?_⟩,
        fun h => h.2 n (Option.some_ne_none i) hentry⟩
      obtain rfl : n = m := Option.some.inj (hentry.symm.trans hm)
      exact h

end

def openFails : Outcomes where
  toService := filex
  fault
    | .fileOpen => some .ioError
    | _ => none

set_option maxRecDepth 20000 in
theorem created_file_stays :
    let opened := sysOpen openFails emptyVolumes ['x'] { access := .rdwr, creat := true }
    opened.2 = .error .eio ∧ (emptyVolumes.fx.media .flash).find? [['X']] = none ∧
      (opened.1.fx.media .flash).find? [['X']] = some ⟨0, false⟩ ∧
      ¬ FailureChangesNothing openFails emptyVolumes ['x'] { access := .rdwr, creat := true } := by
  intro opened
  have herror : opened.2 = .error .eio := by decide
  have hstays : (opened.1.fx.media .flash).find? [['X']] = some ⟨0, false⟩ := by decide
  refine ⟨herror, by decide, hstays, fun h => ?_⟩
  rw [(h _ herror).entries] at hstays
  exact absurd hstays (by decide)

end SimPLCity.OpenRollback
