import SimPLCity.SoleDescriptor

/-! The file offset is kept twice: as the position of the descriptor and as the offset of
its FileX handle. They agree as long as no FileX call fails between the moves of the two;
the conditions below say which failures those are. -/

namespace SimPLCity.FileOffsets
open PathText FileXVolume PathTree FileDescriptors FileNamespace HandleSteps CallEffects
  CursorFile SoleDescriptor

/-- An open handle stands at the position, or at the end if that comes first. -/
def InStep (d : FileDescriptor) : Prop :=
  d.openMode ≠ none → d.file.currentFileOffset = min d.position d.file.currentFileSize

/-- Position and offset of the handle after a successful switch to writing. -/
inductive WriterAt (o : Outcomes) (fx : FileX) (d : FileDescriptor) (object : ObjectId) :
    Nat → Nat → Prop
  | same (h : d.openMode = some .write) : WriterAt o fx d object d.position d.file.currentFileOffset
  | reopened (reopens : Reopens o fx d object .write) (fault : o .modeSeek = none) :
      WriterAt o fx d object (savedPosition d) (min (savedPosition d) (fx.content object).length)

/-- A failing seek after a reopen leaves the new handle at 0. -/
def ModeSeekSafe (o : Outcomes) (fx : FileX) (d : FileDescriptor) (object : ObjectId)
    (mode : OpenMode) : Prop :=
  Reopens o fx d object mode → o .modeSeek ≠ none →
    min (savedPosition d) (fx.content object).length = 0

/-- A failing seek of an append write leaves the handle behind the new position. -/
def AppendSeekSafe (o : Outcomes) (fx : FileX) (d : FileDescriptor) (object : ObjectId) : Prop :=
  d.append = true → o .appendSeek ≠ none →
    ∀ position offset, WriterAt o fx d object position offset →
      offset = (fx.content object).length

/-- Growth that fails half-way, or a failing seek after it, leaves the handle at the new end. -/
def GrowSafe (o : Outcomes) (fx : FileX) (d : FileDescriptor) (object : ObjectId)
    (length : Nat) : Prop :=
  (fx.content object).length < length → o .growSeek = none →
    ∀ position offset, WriterAt o fx d object position offset →
    ∀ e size, Grown o (fx.content object).length 0 (length - (fx.content object).length) e size →
      e ≠ none ∨ o .truncateSeek ≠ none → size ≤ position

def OffsetSafe (o : Outcomes) (fx : FileX) (d : FileDescriptor) (object : ObjectId) :
    SysCall → Prop
  | .read _ length => d.readable = true → 0 < length → ModeSeekSafe o fx d object .read
  | .write _ buffer => d.writable = true → buffer ≠ [] →
      ModeSeekSafe o fx d object .write ∧ AppendSeekSafe o fx d object
  | .lseek _ _ _ => d.openMode = none →
      ModeSeekSafe o fx d object (if d.readable then .read else .write)
  | .ftruncate _ length => 0 ≤ length → d.writable = true →
      ModeSeekSafe o fx d object .write ∧ GrowSafe o fx d object length.toNat
  | _ => True

section
variable {mounted : Volume → Bool} {o : Outcomes} {fx fx' : FileX} {d d' : FileDescriptor}
  {object : ObjectId} {mode : OpenMode} {e : Option Errno}

theorem switched_inStep (h : Switched o fx d object mode (fx', d', e))
    (hsole : Sole mounted object fx' d') (hcontent : fx'.content = fx.content)
    (hsafe : ModeSeekSafe o fx d object mode) (hin : InStep d) : InStep d' := by
  cases h with
  | same _ => exact hin
  | handleless hno _ => exact fun hopen => absurd hno hopen
  | seekFailed hre hfault hmode hpos hoff =>
    intro _
    rw [hoff, hpos, (hsole.isOpen _ hmode).size, hcontent, hsafe hre hfault]
  | reopened _ _ hmode hpos hoff =>
    intro _
    rw [hoff, hpos, (hsole.isOpen _ hmode).size, hcontent]

theorem switched_writer (h : Switched o fx d object .write (fx', d', none)) :
    d'.openMode = some .write ∧ WriterAt o fx d object d'.position d'.file.currentFileOffset := by
  cases h with
  | same hd => exact ⟨hd, .same hd⟩
  | reopened hre hfault hmode hpos hoff =>
    rw [hpos, hoff]
    exact ⟨hmode, .reopened hre hfault⟩

theorem inStep_of_eq (hsole : Sole mounted object fx d)
    (h : d.position = d.file.currentFileOffset) : InStep d := by
  intro hopen
  obtain ⟨m, hm⟩ := Option.ne_none_iff_exists'.mp hopen
  have := (hsole.isOpen m hm).offset
  omega

theorem fxFileRead_sole (x : Service) (hsole : Sole mounted object fx d) (hd : d.openMode ≠ none)
    (fault : Option Fault) (length position : Nat) :
    Sole mounted object fx
      { d with position := position, file := (x.fxFileRead fault fx d.file length).2.2 } := by
  obtain ⟨m, hm⟩ := Option.ne_none_iff_exists'.mp hd
  have hon := hsole.isOpen m hm
  obtain ⟨offset, hread, hoffset⟩ := fxFileRead_offset x fault fx d.file length
  rw [hread]
  exact hsole.adjust position (hoffset ⟨hon.sameObject ▸ hon.size, hon.offset⟩)

end

/-- Read, write, lseek or ftruncate with this descriptor number. -/
def DescriptorCall (file : Int) : SysCall → Prop
  | .read f _ => f = file
  | .write f _ => f = file
  | .lseek f _ _ => f = file
  | .ftruncate f _ => f = file
  | _ => False

/-- The descriptor of a run: the only one on its file. -/
structure Held (i : Fin maximumOpenFiles) (object : ObjectId) (fs : FileSystem) : Prop where
  sole : Sole fs.mounted object fs.fx (fs.descriptors i)
  allocated : (fs.descriptors i).allocated = true

/-- A call keeps the descriptor on its file whatever fails, and its two offsets in step
unless one of the harmful failures occurs. -/
structure Keeps (o : Outcomes) (i : Fin maximumOpenFiles) (object : ObjectId) (call : SysCall)
    (fs fs' : FileSystem) : Prop where
  held : Held i object fs'
  inStep : OffsetSafe o fs.fx (fs.descriptors i) object call → InStep (fs.descriptors i) →
    InStep (fs'.descriptors i)

section
variable {o : Outcomes} {fs : FileSystem} {i : Fin maximumOpenFiles} {object : ObjectId}
  {file : Int} {fx : FileX} {d : FileDescriptor} {call : SysCall}

theorem Held.descriptorFor (h : Held i object fs) (hi : slotOf file = some i) :
    descriptorFor fs file = some i := by
  simp [FileDescriptors.descriptorFor, hi, h.allocated]

theorem Held.same (h : Held i object fs) : Keeps o i object call fs fs := ⟨h, fun _ => id⟩

theorem Held.set (h : Held i object fs) (hs : Sole fs.mounted object fx d)
    (halloc : d.allocated = (fs.descriptors i).allocated)
    (hin : OffsetSafe o fs.fx (fs.descriptors i) object call → InStep (fs.descriptors i) →
      InStep d) : Keeps o i object call fs (fs.setDescriptor i fx d) := by
  refine ⟨⟨?_, ?_⟩, ?_⟩ <;> rw [setDescriptor_self]
  · exact hs
  · exact halloc.trans h.allocated
  · exact hin

theorem Held.switched {mode : OpenMode} {e : Option Errno} (h : Held i object fs)
    (hsw : switchMode o fs.mounted fs.fx (fs.descriptors i) mode = (fx, d, e)) :
    Sole fs.mounted object fx d ∧ SameDescriptor (fs.descriptors i) d ∧
      fx.content = fs.fx.content ∧ Switched o fs.fx (fs.descriptors i) object mode (fx, d, e) ∧
      (ModeSeekSafe o fs.fx (fs.descriptors i) object mode → InStep (fs.descriptors i) →
        InStep d) := by
  obtain ⟨hsole, hswitched⟩ := switchMode_sole h.sole hsw
  have hcontent : fx.content = fs.fx.content := by
    have := switchMode_content o fs.mounted fs.fx (fs.descriptors i) mode
    rwa [hsw] at this
  exact ⟨hsole, (switchMode_steps hsw).1.frame.2, hcontent, hswitched,
    switched_inStep hswitched hsole hcontent⟩

theorem switched_isOpen {fx₀ : FileX} {d₀ : FileDescriptor} {mode : OpenMode}
    (h : Switched o fx₀ d₀ object mode (fx, d, none)) : d.openMode ≠ none := by
  cases h with
  | same hd => simp [hd]
  | reopened _ _ hmode _ _ => simp [hmode]

theorem Held.read (h : Held i object fs) (hi : slotOf file = some i) (length : Int) :
    Keeps o i object (.read file length) fs (sysRead o fs file length).1 := by
  unfold sysRead
  split
  · exact h.same
  · simp only [h.descriptorFor hi]
    split
    · exact h.same
    · rename_i hreadable
      split
      · exact h.same
      · rcases hsw : switchMode o fs.mounted fs.fx (fs.descriptors i) .read with ⟨fx, d, _ | e⟩
        · obtain ⟨hsole, hsame, _, hswitched, _⟩ := h.switched hsw
          have hread := fxFileRead_sole o hsole (switched_isOpen hswitched) (o .fileRead)
            length.toNat
            (o.fxFileRead (o .fileRead) fx d.file length.toNat).2.2.currentFileOffset
          exact h.set hread hsame.allocated fun _ _ => inStep_of_eq hread rfl
        · obtain ⟨hsole, hsame, _, _, hin⟩ := h.switched hsw
          exact h.set hsole hsame.allocated fun hsafe =>
            hin (hsafe (by simpa using hreadable) (by omega))

theorem fxFileWrite_sole {mounted : Volume → Bool} (x : Service) (hsole : Sole mounted object fx d)
    (hd : d.openMode = some .write) (fault : Option Fault) (bytes : List UInt8) (position : Nat) :
    Sole mounted object (x.fxFileWrite fault fx d.file bytes).2.1
      { d with position := position, file := (x.fxFileWrite fault fx d.file bytes).2.2 } := by
  have hon := hsole.isOpen _ hd
  cases fault with
  | some f =>
    rw [x.write_fault]
    exact hsole.adjust position hon.offset
  | none =>
    rw [fxFileWrite_open x hon]
    refine hsole.put hd _ position ?_
    rw [length_overwrite bytes (hon.size ▸ hon.offset)]
    omega

theorem Held.write (h : Held i object fs) (hi : slotOf file = some i) (buffer : List UInt8) :
    Keeps o i object (.write file buffer) fs (sysWrite o fs file buffer).1 := by
  unfold sysWrite
  simp only [h.descriptorFor hi]
  split
  · exact h.same
  · rename_i hwritable
    split
    · exact h.same
    · rename_i hbuffer
      have hparts : OffsetSafe o fs.fx (fs.descriptors i) object (.write file buffer) →
          ModeSeekSafe o fs.fx (fs.descriptors i) object .write ∧
            AppendSeekSafe o fs.fx (fs.descriptors i) object := fun hsafe =>
        hsafe (by simpa using hwritable) (by simpa using hbuffer)
      rcases hsw : switchMode o fs.mounted fs.fx (fs.descriptors i) .write with ⟨fx, d, _ | e⟩
      · obtain ⟨hsole, hsame, hcontent, hswitched, _⟩ := h.switched hsw
        obtain ⟨hd, hat⟩ := switched_writer hswitched
        have hon := hsole.isOpen _ hd
        simp only [positionForWrite]
        by_cases ha : d.append = true
        · rw [if_pos ha]
          have hsought := hsole.seek o (by simp [hd]) (o .appendSeek) d.file.currentFileSize
            d.file.currentFileSize
          cases hf : o .appendSeek with
          | some f =>
            obtain ⟨e, hfe⟩ := Option.ne_none_iff_exists'.mp f.filexErrno_ne_none
            rw [hf] at hsought
            simp only [o.seek_fault, hfe] at hsought ⊢
            refine h.set hsought hsame.allocated fun hsafe _ _ => ?_
            have := (hparts hsafe).2 (hsame.append.symm.trans ha) (by simp [hf]) _ _ hat
            simp only
            rw [hon.size, hcontent, this, Nat.min_self]
          | none =>
            rw [hf] at hsought
            simp only [o.seek_file, filexErrno] at hsought ⊢
            have hput := fxFileWrite_sole o hsought hd (o .fileWrite) buffer
            exact h.set (hput _) hsame.allocated fun _ _ => inStep_of_eq (hput _) rfl
        · rw [if_neg ha]
          have hput := fxFileWrite_sole o hsole hd (o .fileWrite) buffer
          exact h.set (hput _) hsame.allocated fun _ _ => inStep_of_eq (hput _) rfl
      · obtain ⟨hsole, hsame, _, _, hin⟩ := h.switched hsw
        exact h.set hsole hsame.allocated fun hsafe => hin (hparts hsafe).1

theorem Held.lseek (h : Held i object fs) (hi : slotOf file = some i) (offset : Int)
    (origin : Origin) :
    Keeps o i object (.lseek file offset origin) fs (sysLseek o fs file offset origin).1 := by
  have hreopened : ∀ fx d e, (if (fs.descriptors i).openMode = none then
        switchMode o fs.mounted fs.fx (fs.descriptors i)
          (if (fs.descriptors i).readable then .read else .write)
      else (fs.fx, fs.descriptors i, none)) = (fx, d, e) →
      Sole fs.mounted object fx d ∧ d.allocated = (fs.descriptors i).allocated ∧
        (OffsetSafe o fs.fx (fs.descriptors i) object (.lseek file offset origin) →
          InStep (fs.descriptors i) → InStep d) ∧ (e = none → d.openMode ≠ none) := by
    intro fx d e hsw
    split at hsw
    · rename_i hd
      obtain ⟨hsole, hsame, _, hswitched, hin⟩ := h.switched hsw
      refine ⟨hsole, hsame.allocated, fun hsafe => hin (hsafe hd), ?_⟩
      rintro rfl
      exact switched_isOpen hswitched
    · rename_i hd
      cases hsw
      exact ⟨h.sole, rfl, fun _ => id, fun _ => hd⟩
  unfold sysLseek
  simp only [h.descriptorFor hi]
  split
  · obtain ⟨hsole, halloc, hin, _⟩ := hreopened _ _ _ ‹_›
    exact h.set hsole halloc hin
  · rename_i fx d heq
    obtain ⟨hsole, halloc, hin, hopen⟩ := hreopened _ _ _ heq
    split
    · exact h.set hsole halloc hin
    · split
      · exact h.set hsole halloc hin
      · rename_i target _
        split
        · exact h.set hsole halloc hin
        · rename_i hok
          rw [setDescriptor_setDescriptor]
          refine h.set (hsole.seek o (hopen rfl) (o .seek) target target) halloc fun _ _ _ => ?_
          cases hf : o .seek with
          | some f => simp [hf] at hok
          | none => simp

/-- The position is cut to the length and the handle sent there; a failing seek does no harm
where the handle is there already. -/
theorem inStep_truncateSeek (x : Service) {file : FxFile} {position length : Nat}
    (fault : Option Fault) (hoff : fault ≠ none →
      file.currentFileOffset = min (min position length) file.currentFileSize) :
    InStep { d with
      file := (x.fxFileExtendedSeek fault file (min position length)).2
      position := min position length } := by
  intro _
  cases fault with
  | some f =>
    rw [x.seek_fault]
    exact hoff (by simp)
  | none => simp

theorem Held.ftruncate (h : Held i object fs) (hi : slotOf file = some i) (length : Int) :
    Keeps o i object (.ftruncate file length) fs (sysFtruncate o fs file length).1 := by
  unfold sysFtruncate
  split
  · exact h.same
  · rename_i hneg
    simp only [h.descriptorFor hi]
    split
    · exact h.same
    · rename_i hwritable
      have hparts : OffsetSafe o fs.fx (fs.descriptors i) object (.ftruncate file length) →
          ModeSeekSafe o fs.fx (fs.descriptors i) object .write ∧
            GrowSafe o fs.fx (fs.descriptors i) object length.toNat := fun hsafe =>
        hsafe (by omega) (by simpa using hwritable)
      rcases hsw : switchMode o fs.mounted fs.fx (fs.descriptors i) .write with ⟨fx, d, _ | e⟩
      · obtain ⟨hsole, hsame, hcontent, hswitched, hin⟩ := h.switched hsw
        obtain ⟨hd, hat⟩ := switched_writer hswitched
        have hopen : d.openMode ≠ none := by simp [hd]
        have hon := hsole.isOpen _ hd
        have hoffset : OffsetSafe o fs.fx (fs.descriptors i) object (.ftruncate file length) →
            InStep (fs.descriptors i) →
            d.file.currentFileOffset = min d.position (fs.fx.content object).length := by
          intro hsafe hin₀
          have := hin (hparts hsafe).1 hin₀ hopen
          rwa [hon.size, hcontent] at this
        obtain ⟨fx', file', e, hre, hsole', hresized⟩ :=
          resizeFile_sole (o := o) hsole hd length.toNat
        rw [hcontent] at hresized
        simp only [hre]
        generalize fx'.content object = content at hresized
        cases hresized with
        | failed e =>
          refine h.set hsole' hsame.allocated fun hsafe hin₀ _ => ?_
          simpa [hon.size, hcontent] using hoffset hsafe hin₀
        | same heq =>
          refine h.set (hsole'.seek o hopen _ _ _) hsame.allocated fun hsafe hin₀ =>
            inStep_truncateSeek o _ fun _ => ?_
          rw [hon.size, hcontent, hoffset hsafe hin₀]
          omega
        | cut hless hcut hsize =>
          refine h.set (hsole'.seek o hopen _ _ _) hsame.allocated fun hsafe hin₀ =>
            inStep_truncateSeek o _ fun _ => ?_
          rw [hcut, hsize, hoffset hsafe hin₀]
          omega
        | @grown _ e size hmore hok hchunks hend hsize =>
          cases e with
          | some e =>
            refine h.set hsole' hsame.allocated fun hsafe _ _ => ?_
            have := (hparts hsafe).2 hmore hok _ _ hat _ size hchunks (Or.inl (by simp))
            simp only [hend, hsize]
            omega
          | none =>
            refine h.set (hsole'.seek o hopen _ _ _) hsame.allocated fun hsafe _ =>
              inStep_truncateSeek o _ fun hf => ?_
            have := (hparts hsafe).2 hmore hok _ _ hat _ size hchunks (Or.inr hf)
            cases hchunks with
            | full _ =>
              rw [hend, hsize]
              omega
      · obtain ⟨hsole, hsame, _, _, hin⟩ := h.switched hsw
        exact h.set hsole hsame.allocated fun hsafe => hin (hparts hsafe).1

theorem Held.exec (h : Held i object fs) (hi : slotOf file = some i)
    (hon : DescriptorCall file call) : Keeps o i object call fs (exec o fs call).1 := by
  cases call with
  | read f length =>
    obtain rfl : f = file := hon
    exact h.read hi length
  | write f buffer =>
    obtain rfl : f = file := hon
    exact h.write hi buffer
  | lseek f offset origin =>
    obtain rfl : f = file := hon
    exact h.lseek hi offset origin
  | ftruncate f length =>
    obtain rfl : f = file := hon
    exact h.ftruncate hi length
  | _ => exact absurd hon id

theorem justOpened_held {flags : OpenFlags} (h : JustOpened fs flags i object) :
    Held i object fs := ⟨h.sole, h.allocated⟩

theorem justOpened_inStep {flags : OpenFlags} (h : JustOpened fs flags i object) :
    InStep (fs.descriptors i) := by
  intro hopen
  obtain ⟨m, hm⟩ := Option.ne_none_iff_exists'.mp hopen
  have := (h.sole.isOpen m hm).offset
  rw [h.offset] at this ⊢
  omega

theorem run_held {calls : List (Outcomes × SysCall)} (h : Held i object fs)
    (hi : slotOf file = some i) (hon : ∀ c ∈ calls, DescriptorCall file c.2) :
    Held i object (Runs.run stepCall fs calls) := by
  induction calls generalizing fs with
  | nil => exact h
  | cons c calls ih =>
    exact ih (h.exec hi (hon c (by simp))).held fun c hc => hon c (by simp [hc])

end

/-- The step neither fails a seek after a reopen, of an append or after growth, nor a zero
write, where the two offsets would part. -/
def CallSafe (file : Int) (fs : FileSystem) (c : Outcomes × SysCall) : Prop :=
  ∀ i, slotOf file = some i →
    OffsetSafe c.1 fs.fx (fs.descriptors i) (objectOf fs i) c.2

theorem offset_follows_position {fs : FileSystem} (hfs : EntrySizes fs.fx) {o : Outcomes}
    {path : CStr} {flags : OpenFlags} {file : Int}
    (hopen : (sysOpen o fs path flags).2 = .ok file) {calls : List (Outcomes × SysCall)}
    (hon : ∀ c ∈ calls, DescriptorCall file c.2)
    (hsafe : Runs.Along stepCall (CallSafe file) (sysOpen o fs path flags).1 calls) :
    let s := Runs.run stepCall (sysOpen o fs path flags).1 calls
    ∃ i, slotOf file = some i ∧ (s.descriptors i).allocated = true ∧
      ((s.descriptors i).openMode ≠ none → (s.descriptors i).file.currentFileOffset =
        min (s.descriptors i).position (s.fx.content (objectOf s i)).length) := by
  intro s
  obtain ⟨i, object, hi, hjust⟩ := sysOpen_justOpened hfs hopen
  have hrun : ∀ calls fs, Held i object fs → InStep (fs.descriptors i) →
      (∀ c ∈ calls, DescriptorCall file c.2) → Runs.Along stepCall (CallSafe file) fs calls →
      InStep ((Runs.run stepCall fs calls).descriptors i) := by
    intro calls
    induction calls with
    | nil => exact fun fs _ h _ _ => h
    | cons c calls ih =>
      intro fs h hin hon hsafe
      have hkeeps : Keeps c.1 i object c.2 fs (stepCall fs c) := h.exec hi (hon c (by simp))
      have hcall := hsafe.1 i hi
      rw [h.sole.objectOf] at hcall
      exact ih _ hkeeps.held (hkeeps.inStep hcall hin) (fun c hc => hon c (by simp [hc])) hsafe.2
  have hheld : Held i object s := run_held (justOpened_held hjust) hi hon
  refine ⟨i, hi, hheld.allocated, fun hmode => ?_⟩
  obtain ⟨m, hm⟩ := Option.ne_none_iff_exists'.mp hmode
  rw [hheld.sole.objectOf, ← (hheld.sole.isOpen m hm).size]
  exact hrun calls _ (justOpened_held hjust) (justOpened_inStep hjust) hon hsafe hmode

theorem offsetSafe_quiet (fx : FileX) (d : FileDescriptor) (object : ObjectId) (call : SysCall) :
    OffsetSafe quiet fx d object call := by
  have hmode : ∀ mode, ModeSeekSafe quiet fx d object mode := fun _ _ h => absurd rfl h
  cases call with
  | read _ _ => exact fun _ _ => hmode _
  | write _ _ => exact fun _ _ => ⟨hmode _, fun _ h => absurd rfl h⟩
  | lseek _ _ _ => exact fun _ => hmode _
  | ftruncate _ _ =>
    refine fun _ _ => ⟨hmode _, fun _ _ _ _ _ e size hgrown hbad => ?_⟩
    cases hgrown with
    | full _ => exact absurd rfl (hbad.resolve_left (by simp))
    | stopped _ _ hfault _ => exact absurd rfl hfault
  | _ => trivial

theorem along_quiet (file : Int) (fs : FileSystem) (calls : List SysCall) :
    Runs.Along stepCall (CallSafe file) fs (calls.map fun call => (quiet, call)) := by
  induction calls generalizing fs with
  | nil => trivial
  | cons call calls ih => exact ⟨fun _ _ => offsetSafe_quiet .., ih _⟩

theorem entrySizes_emptyVolumes : EntrySizes emptyVolumes.fx := fun _ => Or.inl rfl

def readWriteCreate : OpenFlags := ⟨.rdwr, true, false, false, false⟩

set_option maxRecDepth 20000 in
theorem offset_follows_position_quiet :
    let calls : List SysCall := [.write 3 [1, 2], .read 3 1, .ftruncate 3 1]
    let s := Runs.run stepCall (sysOpen quiet emptyVolumes ['x'] readWriteCreate).1
      (calls.map fun call => (quiet, call))
    ∃ i, slotOf 3 = some i ∧ (s.descriptors i).allocated = true ∧
      ((s.descriptors i).openMode ≠ none → (s.descriptors i).file.currentFileOffset =
        min (s.descriptors i).position (s.fx.content (objectOf s i)).length) :=
  offset_follows_position entrySizes_emptyVolumes (by decide)
    (by simp [DescriptorCall]) (along_quiet 3 _ _)

def modeSeekFails : Outcomes where
  toService := filex
  fault
    | .modeSeek => some .ioError
    | _ => none

set_option maxRecDepth 20000 in
/-- Two bytes are written and the seek behind the reopen for reading fails: position 2, but
the handle is at 0. -/
theorem offset_lost_after_failing_seek :
    let s := Runs.run stepCall (sysOpen quiet emptyVolumes ['x'] readWriteCreate).1
      [(quiet, .write 3 [1, 2]), (modeSeekFails, .read 3 1)]
    ¬ ((s.descriptors 0).openMode ≠ none → (s.descriptors 0).file.currentFileOffset =
      min (s.descriptors 0).position (s.fx.content (objectOf s 0)).length) := by
  decide

end SimPLCity.FileOffsets
