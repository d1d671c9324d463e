import SimPLCity.StatCall
import SimPLCity.OpenHandles
import SimPLCity.DescriptorIdentity
import SimPLCity.FileOffsets

/-! Whether a stat and an fstat agree on the size of an open file. The fstat asks the handle, the
stat takes the larger of the handle's size and that of the directory entry, which is stale until
the handle is closed. They agree as long as no file is cut below the size in its entry. -/

namespace SimPLCity.StatAgreement
open PathText FileXVolume PathTree FileDescriptors FileNamespace LocatedPaths NamespaceEffects
  HandleSteps CallEffects SoleDescriptor OpenHandles DescriptorIdentity FileOffsets StatCall

/-- The calls that open, write, cut and close files. -/
def FileCall : SysCall → Prop
  | .open .. | .write .. | .ftruncate .. | .close _ => True
  | _ => False

def accessMode (d : FileDescriptor) : OpenMode := if d.writable then .write else .read

/-- No descriptor has lost its handle or switched its mode. -/
def InMode (fs : FileSystem) : Prop :=
  ∀ i, (fs.descriptors i).allocated = true →
    (fs.descriptors i).openMode = some (accessMode (fs.descriptors i))

structure Regular (fs : FileSystem) : Prop where
  consistent : Consistent fs
  identity : ∃ b, Identity fs b
  inMode : InMode fs

/-- The current size of the file that descriptor `i` stands for. -/
def currentSize (fs : FileSystem) (i : Fin maximumOpenFiles) : Nat :=
  (fs.fx.content (fs.descriptors i).file.object).length

def entrySizeOf (fs : FileSystem) (i : Fin maximumOpenFiles) : Nat :=
  fs.fx.entrySize (fs.descriptors i).file.object

/-- `path` is a spelling of the path of the open descriptor `i`. -/
structure Spells (fs : FileSystem) (i : Fin maximumOpenFiles) (path : CStr) : Prop where
  allocated : (fs.descriptors i).allocated = true
  normalized : ∃ p, normalizePathUnlocked fs.currentDirectory path = .ok p ∧
    pathKey p = pathKey (fs.descriptors i).path

section
variable {o : Outcomes} {fs : FileSystem} {i j : Fin maximumOpenFiles} {path p : CStr}

theorem Regular.file (h : Regular fs) (hi : (fs.descriptors i).allocated = true) :
    FileAt fs (fs.descriptors i).path (fs.descriptors i).file.object ∧
      (fs.descriptors i).path.length < maximumPath ∧
      (fs.descriptors i).file.currentFileSize = currentSize fs i := by
  obtain ⟨b, hb⟩ := h.identity
  have hmode := h.inMode i hi
  obtain ⟨object, hobject⟩ : ∃ object, b i = some object :=
    Option.isSome_iff_exists.mp ((hb.bound i).symm.trans hi)
  have hsame := (hb.attached i object hobject (by simp [hmode])).1
  refine ⟨hsame ▸ hb.path i object hobject, hb.fits i object hobject, ?_⟩
  exact (h.consistent.own i _ hmode).size

theorem informationUnlocked_normalized {x : Service} {fault : Option Fault}
    (h : normalizePathUnlocked fs.currentDirectory path = .ok p) :
    informationUnlocked x fault fs path = informationUnlocked x fault fs p := by
  have hbuffer := normalizePathUnlocked_buffer h
  unfold informationUnlocked
  rw [h, normalizePathUnlocked_canonical _ hbuffer.canonical hbuffer.fits]

theorem foldl_max {α : Type} {f : α → Nat} {m : α → Bool} {n : Nat} (xs : List α)
    (hall : ∀ x ∈ xs, m x = true → f x = n) (a : Nat) :
    xs.foldl (fun a x => if m x then max a (f x) else a) a =
      if xs.any m then max a n else a := by
  induction xs generalizing a with
  | nil => rfl
  | cons x xs ih =>
    rw [List.foldl_cons, ih fun y hy => hall y (List.mem_cons_of_mem x hy), List.any_cons]
    cases hx : m x with
    | false => rfl
    | true =>
      rw [if_pos rfl, hall x (List.mem_cons_self ..) hx, Bool.true_or, if_pos rfl]
      split
      · rw [max_assoc, max_self]
      · rfl

theorem largestSize_eq (h : Regular fs) (hs : Spells fs i path)
    (hp : normalizePathUnlocked fs.currentDirectory path = .ok p) (size : Nat) :
    largestSize fs p size = max size (currentSize fs i) := by
  obtain ⟨p', hp', hkey⟩ := hs.normalized
  obtain rfl : p' = p := Except.ok.inj (hp'.symm.trans hp)
  have hcanonical := (normalizePathUnlocked_buffer hp).canonical
  obtain ⟨⟨v, k, hl, hn⟩, -, -⟩ := h.file hs.allocated
  have hroot : p' ≠ ['/'] := by
    rintro rfl
    rw [hl.key, hcanonical.pathKey_eq_nil.mpr rfl] at hkey
    cases hkey
  have heq : ∀ {q}, Canonical q → (pathsEqual q p' = true ↔ pathKey q = mountKey v :: k) := by
    intro q hq
    rw [pathsEqual_iff hq hcanonical hroot, hkey, hl.key]
  unfold largestSize
  rw [foldl_max (f := fun j => (fs.descriptors j).file.currentFileSize)
    (m := fun j => (fs.descriptors j).allocated && (fs.descriptors j).openMode.isSome &&
      pathsEqual (fs.descriptors j).path p') (n := currentSize fs i)]
  · rw [if_pos]
    rw [List.any_eq_true]
    refine ⟨i, List.mem_finRange i, ?_⟩
    rw [hs.allocated, h.inMode i hs.allocated, (heq hl.canonical).mpr hl.key]
    rfl
  · intro j _ hj
    simp only [Bool.and_eq_true] at hj
    obtain ⟨⟨w, l, hl', hn'⟩, -, hsize⟩ := h.file hj.1.1
    have hkey' := (heq hl'.canonical).mp hj.2
    obtain ⟨rfl, rfl⟩ := hl'.unique ⟨hl'.canonical, hl.mounted, hkey'⟩
    have hobject : (fs.descriptors j).file.object = (fs.descriptors i).file.object :=
      congrArg Node.object (Option.some.inj (hn'.symm.trans hn))
    rw [hsize, currentSize, hobject, currentSize]

theorem Regular.stat (h : Regular fs) (hs : Spells fs i path) (ho : o .information = none) :
    ∃ s, sysStat o fs path = .ok s ∧ s.size = max (entrySizeOf fs i) (currentSize fs i) := by
  obtain ⟨p, hp, hkey⟩ := hs.normalized
  obtain ⟨⟨v, k, hl, hn⟩, -, -⟩ := h.file hs.allocated
  have hbuffer := normalizePathUnlocked_buffer hp
  have hlp : Located fs.mounted p v k := ⟨hbuffer.canonical, hl.mounted, hkey.trans hl.key⟩
  have hk : k ≠ [] := by
    rintro rfl
    rw [find?_nil] at hn
    cases hn
  have hinfo := informationUnlocked_located o (o .information) hlp hbuffer.fits hk
  rw [ho, hn, ← informationUnlocked_normalized hp] at hinfo
  refine ⟨_, by rw [sysStat, ho, hinfo, hp]; rfl, ?_⟩
  exact largestSize_eq h hs hp _

theorem Regular.fstat (h : Regular fs) (hi : (fs.descriptors i).allocated = true)
    (ho : o .information = none) :
    ∃ s, fstatRecord o fs (fileNumber i) = .ok s ∧ s.size = currentSize fs i := by
  obtain ⟨⟨v, k, hl, hn⟩, hfits, hsize⟩ := h.file hi
  have hk : k ≠ [] := by
    rintro rfl
    rw [find?_nil] at hn
    cases hn
  have hinfo := informationUnlocked_located o (o .information) hl hfits hk
  rw [ho, hn] at hinfo
  have hslot : descriptorFor fs (fileNumber i) = some i := by
    rw [descriptorFor, slotOf_fileNumber, Option.filter_some, if_pos hi]
  refine ⟨_, by rw [fstatRecord, sysFstat, hslot, ho]; simp only; rw [hinfo]; rfl, ?_⟩
  simp only [h.inMode i hi, Option.isSome_some, if_true]
  exact hsize

/-- Both calls report the current size, under any spelling of the path. -/
def Agrees (fs : FileSystem) : Prop :=
  ∀ i path o o', Spells fs i path → o .information = none → o' .information = none →
    ∃ s t, sysStat o fs path = .ok s ∧ fstatRecord o' fs (fileNumber i) = .ok t ∧
      s.size = currentSize fs i ∧ t.size = currentSize fs i

theorem agrees_iff (h : Regular fs) :
    Agrees fs ↔ ∀ i, (fs.descriptors i).allocated = true → entrySizeOf fs i ≤ currentSize fs i := by
  constructor
  · intro hagrees i hi
    obtain ⟨⟨v, k, hl, -⟩, hfits, -⟩ := h.file hi
    have hs : Spells fs i (fs.descriptors i).path :=
      ⟨hi, _, normalizePathUnlocked_canonical _ hl.canonical hfits, rfl⟩
    obtain ⟨s, -, hstat, -, hsize, -⟩ := hagrees i _ quiet quiet hs rfl rfl
    obtain ⟨s', hstat', hsize'⟩ := h.stat (o := quiet) hs rfl
    obtain rfl : s = s' := Except.ok.inj (hstat.symm.trans hstat')
    rw [hsize] at hsize'
    exact (le_max_left _ _).trans hsize'.ge
  · intro hle i path o o' hs ho ho'
    obtain ⟨s, hstat, hsize⟩ := h.stat hs ho
    obtain ⟨t, hfstat, hsize'⟩ := h.fstat hs.allocated ho'
    exact ⟨s, t, hstat, hfstat, hsize.trans (max_eq_right (hle i hs.allocated)), hsize'⟩

end

/-- No file is shorter than its directory entry says. -/
def Within (fx : FileX) : Prop := ∀ object, fx.entrySize object ≤ (fx.content object).length

/-- The call cuts a file below the size in its directory entry: an open with truncation of a file
whose entry is not empty, or a cut to less than the entry. No FileX call on the way fails. -/
def CutsBelowEntry (o : Outcomes) (fs : FileSystem) : SysCall → Prop
  | .open path flags => flags.trunc = true ∧ flags.access ≠ .rdonly ∧ o .fileOpen = none ∧
      o .modeSeek = none ∧ o .truncate = none ∧
      ∃ normalized resolved slot info,
        openChecks o fs path flags = .ok (normalized, resolved, slot, some info) ∧ 0 < info.size ∧
        ∀ n, fs.fx.find? resolved.volume resolved.localPath = some n →
          fs.fx.conflicts n.object .write = false
  | .ftruncate file length => o .truncate = none ∧ 0 ≤ length ∧
      ∃ i, descriptorFor fs file = some i ∧ (fs.descriptors i).writable = true ∧
        length.toNat < entrySizeOf fs i
  | _ => False

section
variable {o : Outcomes} {fs : FileSystem} {fx fx' : FileX} {d : FileDescriptor} {file : FxFile}
  {i : Fin maximumOpenFiles} {mounted : Volume → Bool} {mode : OpenMode}

theorem within_put (h : Within fx) (object : ObjectId) {content : List UInt8}
    (hlength : fx.entrySize object ≤ content.length) :
    Within { fx with content := Function.update fx.content object content } := by
  intro x
  by_cases hx : x = object
  · subst hx
    simpa using hlength
  · simpa [Function.update_of_ne hx] using h x

theorem fxFileWrite_within (x : Service) (h : Within fx) (fault : Option Fault)
    (bytes : List UInt8) : Within (x.fxFileWrite fault fx file bytes).2.1 := by
  rcases fxFileWrite_cases x fault fx file bytes with ⟨st, hwrite⟩ | ⟨-, hwrite⟩ <;> rw [hwrite]
  · exact h
  · refine within_put h _ ((h file.object).trans ?_)
    simp only [CursorFile.overwrite, List.length_append, List.length_take, List.length_drop]
    omega

theorem writeZeroes_within (h : Within fx) (fuel chunk remaining : Nat) :
    Within (writeZeroes o fx file fuel chunk remaining).1 := by
  induction fuel generalizing fx file chunk remaining with
  | zero => exact h
  | succ fuel ih =>
    rw [writeZeroes]
    split
    · exact h
    · have hput : Within (o.fxFileWrite (o (.zeroWrite chunk)) fx file
          (List.replicate (min remaining 64) 0)).2.1 := fxFileWrite_within o h _ _
      simp only
      split
      · exact hput
      · exact ih hput _ _

theorem truncate_within (h : Within fx) {size : Nat}
    (hsize : o .truncate = none → fx.entrySize file.object ≤ size) :
    Within (o.fxFileExtendedTruncateRelease (o .truncate) fx file size).2.1 := by
  rcases fxFileExtendedTruncateRelease_cases o (o .truncate) fx file size with
    ⟨st, hcut⟩ | ⟨hfault, -, hcut⟩ <;> rw [hcut]
  · exact h
  · refine within_put h _ ?_
    rw [List.length_take]
    exact le_min (hsize hfault) (h file.object)

theorem resizeFile_within (h : Within fx) {length : Nat}
    (hlength : o .truncate = none → fx.entrySize file.object ≤ length) :
    Within (resizeFile o fx file length).1 := by
  unfold resizeFile
  simp only
  split
  · exact truncate_within h hlength
  · split
    · split
      · exact h
      · exact writeZeroes_within h _ _ _
    · exact h

theorem fxFileClose_within (x : Service) (h : Within fx) (fault : Option Fault)
    (hsize : file.currentFileSize ≤ (fx.content file.object).length) :
    Within (x.fxFileClose fault fx file).2 := by
  rcases fxFileClose_cases x fault fx file with hclose | hclose <;> rw [hclose]
  · exact h
  · intro x
    simp only [FileX.closed]
    split
    · by_cases hx : x = file.object
      · subst hx
        rw [Function.update_self]
        exact hsize
      · rw [Function.update_of_ne hx]
        exact h x
    · exact h x

theorem InMode.set (h : InMode fs)
    (hd : d.allocated = true → d.openMode = some (accessMode d)) :
    InMode (fs.setDescriptor i fx d) := by
  intro j hj
  by_cases hji : j = i
  · subst hji
    rw [setDescriptor_self] at hj ⊢
    exact hd hj
  · rw [setDescriptor_other _ _ _ hji] at hj ⊢
    exact h j hj

theorem switchMode_inMode (h : d.openMode = some mode) (mounted : Volume → Bool) (fx : FileX) :
    switchMode o mounted fx d mode = (fx, d, none) := if_pos h

theorem positionForWrite_frame (o : Outcomes) (d : FileDescriptor) :
    (positionForWrite o d).1.openMode = d.openMode ∧
      accessMode (positionForWrite o d).1 = accessMode d := by
  unfold positionForWrite
  split <;> exact ⟨rfl, rfl⟩

theorem InMode.writer {number : Int} (h : InMode fs) (hi : descriptorFor fs number = some i)
    (hw : (fs.descriptors i).writable = true) :
    (fs.descriptors i).openMode = some .write ∧
      ∀ o fx, switchMode o fs.mounted fx (fs.descriptors i) .write =
        (fx, fs.descriptors i, none) := by
  have hmode := h i (allocated_of_descriptor hi)
  rw [accessMode, hw, if_pos rfl] at hmode
  exact ⟨hmode, fun o fx => switchMode_inMode hmode fs.mounted fx⟩

theorem sysWrite_step (h : InMode fs) (number : Int) (buffer : List UInt8) :
    InMode (sysWrite o fs number buffer).1 ∧
      (Within fs.fx → Within (sysWrite o fs number buffer).1.fx) := by
  unfold sysWrite
  split
  · exact ⟨h, id⟩
  · rename_i i hi
    split
    · exact ⟨h, id⟩
    · rename_i hw
      obtain ⟨hmode, hswitch⟩ := h.writer hi (not_not.mp hw)
      split
      · exact ⟨h, id⟩
      · rw [hswitch]
        simp only
        obtain ⟨hopen, haccess⟩ := positionForWrite_frame o (fs.descriptors i)
        have hset : ∀ fx file position, InMode (fs.setDescriptor i fx
            { (positionForWrite o (fs.descriptors i)).1 with
              file := file, position := position }) := fun fx file position =>
          h.set fun _ => hopen.trans ((h i (allocated_of_descriptor hi)).trans
            (congrArg some haccess.symm))
        rcases hp : positionForWrite o (fs.descriptors i) with ⟨d, _ | e⟩ <;> rw [hp] at hset
        · exact ⟨hset _ _ _, fun hwithin => fxFileWrite_within o hwithin _ _⟩
        · exact ⟨hset fs.fx d.file d.position, id⟩

theorem sysFtruncate_step (h : InMode fs) (number length : Int) :
    InMode (sysFtruncate o fs number length).1 ∧
      (¬ CutsBelowEntry o fs (.ftruncate number length) → Within fs.fx →
        Within (sysFtruncate o fs number length).1.fx) := by
  unfold sysFtruncate
  split
  · exact ⟨h, fun _ => id⟩
  · rename_i hlength
    split
    · exact ⟨h, fun _ => id⟩
    · rename_i i hi
      split
      · exact ⟨h, fun _ => id⟩
      · rename_i hw
        obtain ⟨hmode, hswitch⟩ := h.writer hi (not_not.mp hw)
        rw [hswitch]
        simp only
        have hset : ∀ fx file position, InMode (fs.setDescriptor i fx
            { fs.descriptors i with file := file, position := position }) :=
          fun fx file position => h.set fun _ => h i (allocated_of_descriptor hi)
        have hresize : ¬ CutsBelowEntry o fs (.ftruncate number length) → Within fs.fx →
            Within (resizeFile o fs.fx (fs.descriptors i).file length.toNat).1 :=
          fun hcut hwithin => resizeFile_within hwithin fun ho => not_lt.mp fun hlt =>
            hcut ⟨ho, not_lt.mp hlength, i, hi, not_not.mp hw, hlt⟩
        rcases hr : resizeFile o fs.fx (fs.descriptors i).file length.toNat with
          ⟨fx, file, _ | e⟩ <;> rw [hr] at hresize
        · exact ⟨hset _ _ _, hresize⟩
        · exact ⟨hset _ _ (fs.descriptors i).position, hresize⟩

theorem sysClose_step (h : Regular fs) (number : Int) :
    InMode (sysClose o fs number).1 ∧ (Within fs.fx → Within (sysClose o fs number).1.fx) := by
  unfold sysClose
  split
  · exact ⟨h.inMode, id⟩
  · split
    · exact ⟨h.inMode, id⟩
    · rename_i i hi
      refine ⟨h.inMode.set fun ha => absurd ha Bool.false_ne_true, fun hwithin => ?_⟩
      simp only [setDescriptor_fx]
      split
      · exact fxFileClose_within o hwithin _ (h.file (allocated_of_descriptor hi)).2.2.le
      · exact hwithin

theorem openDescriptor_within (o : Outcomes) (fs : FileSystem) (flags : OpenFlags) (h : Within fx)
    (hd : d.openMode = none)
    (hcut : (d.writable && flags.trunc) = true → o .fileOpen = none → o .modeSeek = none →
      o .truncate = none → ∀ r n, resolveNormalizedPath fs.mounted d.path = .ok r →
        fx.find? r.volume r.localPath = some n → fx.conflicts n.object .write = false →
        fx.entrySize n.object = 0) :
    let opened := openDescriptor o fs fx flags d
    Within opened.1 ∧ (opened.2.1.openMode ≠ none →
      opened.2.1.file.currentFileSize ≤ (opened.1.content opened.2.1.file.object).length) := by
  have hclosed : closeForSwitch o fx d = (fx, d, none) := by rw [closeForSwitch, hd]
  unfold openDescriptor
  rw [switchMode, if_neg (by rw [hd]; exact fun hmode => by cases hmode), hclosed]
  simp only
  rcases reopen_cases o fs.mounted fx d (if d.writable then .write else .read) with
    ⟨e, hfail⟩ | ⟨r, n, hr, -, hopened, hn, -, hfree, hok⟩
  · rw [hfail]
    exact ⟨h, fun hopen => absurd hd hopen⟩
  · rw [hok]
    cases hseek : o .modeSeek with
    | some f =>
      obtain ⟨e, he⟩ := Option.ne_none_iff_exists'.mp f.filexErrno_ne_none
      simp only [o.seek_fault, he]
      exact ⟨h, fun _ => h n.object⟩
    | none =>
      simp only [o.seek_file, filexErrno]
      split
      · rename_i htrunc
        have hwritable : d.writable = true := (Bool.and_eq_true_iff.mp htrunc).1
        rw [if_pos hwritable] at hfree
        cases hfault : o .truncate with
        | some f =>
          rw [o.truncate_fault]
          exact ⟨h, fun _ => h n.object⟩
        | none =>
          have hempty := hcut htrunc hopened hseek hfault r n hr hn hfree
          simp (disch := rfl) only [hwritable, if_true, o.truncate_file]
          refine ⟨within_put (show Within { fx with opened := _, nextHandle := _ } from h) n.object ?_,
            fun _ => ?_⟩
          · rw [hempty]
            exact Nat.zero_le _
          · rw [Nat.min_zero]
            exact Nat.zero_le _
      · exact ⟨h, fun _ => h n.object⟩

theorem createMissing_within (o : Outcomes) (h : Within fs.fx) (r : ResolvedPath)
    (info : Option EntryInformation) : Within (createMissing o fs r info).2 := by
  unfold createMissing
  split
  · exact h
  · rcases createEntry_cases o false (o .fileCreate) fs.fx r.volume r.localPath with
      ⟨st, -, hcr⟩ | ⟨hfree, -, hcr⟩ <;> rw [Calls.fxFileCreate, hcr]
    · exact h
    · intro x
      by_cases hx : x = fs.fx.nextObject
      · subst hx
        simp [FileX.addEntry]
      · simpa [FileX.addEntry, Function.update_of_ne hx] using h x

theorem openDescriptor_mode {flags : OpenFlags}
    (h : openDescriptor o fs fx flags d = (fx', d', none)) :
    d'.openMode = some (accessMode d') := by
  have hwritable : d'.writable = d.writable := (openDescriptor_steps h).1.frame.2.writable
  have hmode : d'.openMode = some (accessMode d) := by
    unfold openDescriptor at h
    rcases hsw : switchMode o fs.mounted fx d (if d.writable then .write else .read) with
      ⟨fx₁, d₁, _ | e⟩ <;> rw [hsw] at h
    · have hopen := (switchMode_steps hsw).2 rfl
      simp only at h
      split at h
      · exact (congrArg (fun t => t.2.1.openMode) h).symm.trans hopen
      · cases h
        exact hopen
    · cases h
  rw [hmode, accessMode, accessMode, hwritable]

theorem opened_entry_empty {path p : CStr} {flags : OpenFlags} {r r' : ResolvedPath} {v : Volume}
    {k : List Name} {slot : Fin maximumOpenFiles} {info : Option EntryInformation}
    {n : Node ObjectId} (hcut : ¬ CutsBelowEntry o fs (.open path flags))
    (hc : openChecks o fs path flags = .ok (p, r, slot, info)) (hr : Resolved r v k)
    (hr' : Resolved r' v k) (hfound : ∀ i, info = some i → ∃ n, (fs.fx.media v).find? k = some n ∧
      n.directory = false ∧ i = entryInformation fs.fx n)
    (hcreated : (createMissing o fs r info).1 = .success)
    (htrunc : flags.access ≠ .rdonly ∧ flags.trunc = true) (hopen : o .fileOpen = none)
    (hseek : o .modeSeek = none) (hfault : o .truncate = none)
    (hn : (createMissing o fs r info).2.find? r'.volume r'.localPath = some n)
    (hfree : (createMissing o fs r info).2.conflicts n.object .write = false) :
    (createMissing o fs r info).2.entrySize n.object = 0 := by
  obtain rfl := hr.volume
  obtain rfl := hr.key
  rw [FileX.find?, hr'.volume, hr'.key] at hn
  cases info with
  | none =>
    rcases createEntry_cases o false (o .fileCreate) fs.fx r.volume r.localPath with
      ⟨st, hst, hcr⟩ | ⟨hfree, -, hcr⟩ <;> rw [createMissing, Calls.fxFileCreate, hcr] at hcreated hn ⊢
    · exact absurd hcreated hst
    · simp only [FileX.addEntry, setMedia_media_self, find?_insert_self, Option.some.injEq] at hn
      subst hn
      exact Function.update_self ..
  | some i =>
    obtain ⟨n', hn', hdirectory, rfl⟩ := hfound i rfl
    obtain rfl : n' = n := Option.some.inj (hn'.symm.trans hn)
    by_contra hsize
    refine hcut ⟨htrunc.2, htrunc.1, hopen, hseek, hfault, p, r, slot, _, hc, ?_, ?_⟩
    · rw [entryInformation, hdirectory]
      exact Nat.pos_of_ne_zero hsize
    · intro m hm
      obtain rfl : m = n' := Option.some.inj (hm.symm.trans hn)
      exact hfree

theorem sysOpen_step (h : InMode fs) (path : CStr) (flags : OpenFlags) :
    InMode (sysOpen o fs path flags).1 ∧
      (¬ CutsBelowEntry o fs (.open path flags) → Within fs.fx →
        Within (sysOpen o fs path flags).1.fx) := by
  unfold sysOpen
  cases hc : openChecks o fs path flags with
  | error e => exact ⟨h, fun _ => id⟩
  | ok q =>
    obtain ⟨p, r, slot, info⟩ := q
    obtain ⟨v, k, hn, hr, -, hfound⟩ := openChecks_ok hc
    simp only
    split
    · exact ⟨h, fun _ => id⟩
    · rename_i hcreated
      have hopened : ¬ CutsBelowEntry o fs (.open path flags) → Within fs.fx →
          _ := fun hcut hwithin => openDescriptor_within o fs flags
        (d := newDescriptor flags p (info.getD { directory := false }))
        (createMissing_within o hwithin r info) rfl
        fun htrunc hopen hseek hfault r' n hr' hfind hfree => by
          obtain ⟨r'', hr'', hres⟩ := resolveNormalizedPath_located hn.located
          obtain rfl : r'' = r' := Except.ok.inj (hr''.symm.trans hr')
          refine opened_entry_empty hcut hc hr hres hfound (not_not.mp hcreated) ?_ hopen hseek
            hfault hfind hfree
          simpa [newDescriptor] using htrunc
      simp only at hopened
      rcases hod : openDescriptor o fs (createMissing o fs r info).2 flags
          (newDescriptor flags p (info.getD { directory := false })) with ⟨fx, d, _ | e⟩ <;>
        rw [hod] at hopened
      · exact ⟨h.set fun _ => openDescriptor_mode hod, fun hcut hwithin => (hopened hcut hwithin).1⟩
      · refine ⟨h.set fun ha => absurd ha Bool.false_ne_true, fun hcut hwithin => ?_⟩
        obtain ⟨hfx, hsize⟩ := hopened hcut hwithin
        simp only [setDescriptor_fx]
        split
        · rename_i hmode
          exact fxFileClose_within o hfx _ (hsize (Option.isSome_iff_ne_none.mp hmode))
        · exact hfx

theorem fxFileExtendedSeek_object (x : Service) (fault : Option Fault) (target : Nat) :
    (x.fxFileExtendedSeek fault file target).2.object = file.object := by
  obtain ⟨offset, hseek, -⟩ := fxFileExtendedSeek_offset x fault file target
  rw [hseek]

theorem cut_shortens (h : Regular fs) (hwithin : Within fs.fx) {call : SysCall}
    (hcut : CutsBelowEntry o fs call) :
    ∃ i, ((exec o fs call).1.descriptors i).allocated = true ∧
      currentSize (exec o fs call).1 i < entrySizeOf (exec o fs call).1 i := by
  cases call with
  | «open» path flags =>
    obtain ⟨htrunc, haccess, hopen, hseek, hfault, p, r, slot, info, hc, hpos, hfree⟩ := hcut
    obtain ⟨v, k, hn, hr, -, hfound⟩ := openChecks_ok hc
    obtain ⟨n, hfind, hdirectory, rfl⟩ := hfound info rfl
    obtain ⟨r', hr', hres⟩ := resolveNormalizedPath_located hn.located
    have hroot : (r'.virtualRoot || r'.mountRoot) = false := by
      rw [hres.virtualRoot, hres.mountRoot, decide_eq_false hn.entry]
      rfl
    have hentry : fs.fx.find? r'.volume r'.localPath = some n := by
      rw [FileX.find?, hres.volume, hres.key, hfind]
    have hconflict : fs.fx.conflicts n.object .write = false :=
      hfree n (by rw [FileX.find?, hr.volume, hr.key, hfind])
    have hsize : 0 < fs.fx.entrySize n.object := by
      simpa [entryInformation, hdirectory] using hpos
    refine ⟨slot, ?_⟩
    simp [exec, answered, sysOpen, hc, createMissing, openDescriptor, switchMode, newDescriptor,
      closeForSwitch, reopen, hr', hroot, hopen, o.open_file _ _ _ _ n hentry hdirectory hconflict,
      hseek, filexErrno, haccess, htrunc, o.truncate_file, hfault, currentSize, entrySizeOf, hsize]
  | ftruncate number length =>
    obtain ⟨hfault, hlength, i, hi, hw, hlt⟩ := hcut
    obtain ⟨hmode, hswitch⟩ := h.inMode.writer hi hw
    have hon := h.consistent.own i _ hmode
    have hshort : length.toNat < (fs.descriptors i).file.currentFileSize := by
      rw [hon.size]
      exact hlt.trans_le (hwithin _)
    refine ⟨i, ?_⟩
    simp [exec, answered, sysFtruncate, not_lt.mpr hlength, hi, hw, hswitch, resizeFile, hshort,
      o.truncate_file _ _ _ hon.sameMode, hfault, filexErrno, currentSize, entrySizeOf,
      allocated_of_descriptor hi, fxFileExtendedSeek_object]
    exact Or.inl hlt
  | _ => exact hcut.elim

theorem Regular.exec (h : Regular fs) {call : SysCall} (hcall : FileCall call) :
    Regular (exec o fs call).1 := by
  obtain ⟨b, hb⟩ := h.identity
  cases call with
  | «open» path flags =>
    exact ⟨h.consistent.exec _, ⟨_, hb.exec _ trivial⟩, (sysOpen_step h.inMode path flags).1⟩
  | write number buffer =>
    exact ⟨h.consistent.exec _, ⟨_, hb.exec _ trivial⟩, (sysWrite_step h.inMode number buffer).1⟩
  | ftruncate number length =>
    exact ⟨h.consistent.exec _, ⟨_, hb.exec _ trivial⟩,
      (sysFtruncate_step h.inMode number length).1⟩
  | close number =>
    exact ⟨h.consistent.exec _, ⟨_, hb.exec _ trivial⟩, (sysClose_step h number).1⟩
  | _ => exact hcall.elim

theorem exec_within (h : Regular fs) {call : SysCall} (hcall : FileCall call)
    (hcut : ¬ CutsBelowEntry o fs call) (hwithin : Within fs.fx) :
    Within (exec o fs call).1.fx := by
  cases call with
  | «open» path flags => exact (sysOpen_step h.inMode path flags).2 hcut hwithin
  | write number buffer => exact (sysWrite_step h.inMode number buffer).2 hwithin
  | ftruncate number length => exact (sysFtruncate_step h.inMode number length).2 hcut hwithin
  | close number => exact (sysClose_step h number).2 hwithin
  | _ => exact hcall.elim

theorem regular_of_initial (h : Initial fs) (hsizes : EntrySizes fs.fx) :
    Regular fs ∧ Within fs.fx := by
  refine ⟨⟨consistent_of_initial h hsizes, ⟨_, identity_of_initial h⟩, fun i hi => ?_⟩, fun x => ?_⟩
  · rw [h.descriptors i] at hi
    cases hi
  · rcases hsizes x with heq | ⟨r, hr, -⟩
    · exact heq.le
    · rw [h.opened] at hr
      cases hr

theorem stat_fstat_agree (h : Initial fs) (hsizes : EntrySizes fs.fx)
    {calls : List (Outcomes × SysCall)} (hcalls : ∀ c ∈ calls, FileCall c.2) :
    (∀ before, before <+: calls → Agrees (Runs.run stepCall fs before)) ↔
      Runs.Along stepCall (fun s c => ¬ CutsBelowEntry c.1 s c.2) fs calls := by
  refine Runs.prefixes_iff_along (P := fun s => Regular s ∧ Within s.fx) ?_ ?_ ?_
    (regular_of_initial h hsizes)
  · rintro s ⟨hs, hwithin⟩
    exact (agrees_iff hs).mpr fun i _ => hwithin _
  · rintro s c hc ⟨hs, hwithin⟩ hcut
    exact ⟨hs.exec (hcalls c hc), exec_within hs (hcalls c hc) hcut hwithin⟩
  · rintro s c hc ⟨hs, hwithin⟩ hagrees hcut
    obtain ⟨i, hi, hlt⟩ := cut_shortens hs hwithin hcut
    exact absurd ((agrees_iff (hs.exec (hcalls c hc))).mp hagrees i hi) (not_le.mpr hlt)

end

def grownFile : List (Outcomes × SysCall) :=
  [(quiet, .open ['x'] readWriteCreate), (quiet, .write 3 [7, 8]), (quiet, .ftruncate 3 1)]

set_option maxRecDepth 20000 in
theorem stat_fstat_agree_grownFile : Agrees (Runs.run stepCall emptyVolumes grownFile) := by
  have hcalls : ∀ c ∈ grownFile, FileCall c.2 := by simp [grownFile, FileCall]
  have hempty : ∀ i, entrySizeOf (Runs.run stepCall emptyVolumes
      [(quiet, .open ['x'] readWriteCreate), (quiet, .write 3 [7, 8])]) i = 0 := by decide
  have halong : Runs.Along stepCall (fun s c => ¬ CutsBelowEntry c.1 s c.2) emptyVolumes
      grownFile := by
    refine ⟨fun hcut => Bool.false_ne_true hcut.1, id, ?_, trivial⟩
    rintro ⟨-, -, i, -, -, hlt⟩
    exact absurd (hlt.trans_eq (hempty i)) (Nat.not_lt_zero _)
  exact (stat_fstat_agree emptyVolumes_initial entrySizes_emptyVolumes hcalls).mpr halong
    grownFile (List.prefix_refl _)

def truncatedFile : List (Outcomes × SysCall) :=
  [(quiet, .open ['x'] readWriteCreate), (quiet, .write 3 [7]), (quiet, .close 3),
    (quiet, .open ['x'] { access := .rdwr, trunc := true })]

set_option maxRecDepth 20000 in
/-- The file is empty, its entry still has the byte of the last close. -/
theorem stat_after_truncation :
    let s := Runs.run stepCall emptyVolumes truncatedFile
    Spells s 0 ['x'] ∧ currentSize s 0 = 0 ∧
      (sysStat quiet s ['x']).map (·.size) = .ok 1 ∧
      (fstatRecord quiet s 3).map (·.size) = .ok 0 ∧ ¬ Agrees s := by
  intro s
  have hspells : Spells s 0 ['x'] := ⟨by decide, _, rfl, by decide⟩
  have hcurrent : currentSize s 0 = 0 := by decide
  have hstat : (sysStat quiet s ['x']).map (·.size) = .ok 1 := by decide
  refine ⟨hspells, hcurrent, hstat, by decide, fun hagrees => ?_⟩
  obtain ⟨r, -, hr, -, hsize, -⟩ := hagrees 0 ['x'] quiet quiet hspells rfl rfl
  rw [hr, Except.map, hsize, hcurrent] at hstat
  cases hstat

end SimPLCity.StatAgreement
