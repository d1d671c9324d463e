import SimPLCity.FileOffsets

/-! Switching modes is invisible. A descriptor that is the only one on its file behaves like
a sequence of bytes with one cursor, however often its handle is closed and opened again. -/

namespace SimPLCity.ModeSwitching
open PathText FileXVolume PathTree FileDescriptors FileNamespace HandleSteps CallEffects CursorFile
  SoleDescriptor FileOffsets

def cursorBase (f : File UInt8) : Origin → Nat
  | .cur => f.cursor
  | .end => f.cells.length
  | _ => 0

/-- A call on bytes with a cursor, and its answer. -/
def cursorCall (append : Bool) (f : File UInt8) : SysCall → File UInt8 × Answer
  | .read _ length => ((f.read length.toNat).2, .bytes (f.read length.toNat).1)
  | .write _ buffer => (f.write append buffer, .number buffer.length)
  | .lseek _ offset origin =>
    let target := (cursorBase f origin + offset).toNat
    (f.seek target, .number target)
  | .ftruncate _ length => (f.truncate 0 length.toNat, .unit)
  | _ => (f, .unit)

/-- The file as the descriptor shows it. -/
structure Shows (i : Fin maximumOpenFiles) (object : ObjectId) (append : Bool) (fs : FileSystem)
    (f : File UInt8) : Prop where
  held : Held i object fs
  isOpen : (fs.descriptors i).openMode ≠ none
  append : (fs.descriptors i).append = append
  cells : fs.fx.content object = f.cells
  position : (fs.descriptors i).position = f.cursor
  offset : (fs.descriptors i).file.currentFileOffset = f.cursor

section
variable {o : Outcomes} {fs : FileSystem} {i : Fin maximumOpenFiles} {object : ObjectId}
  {append : Bool} {f : File UInt8} {file : Int} {fx : FileX} {d : FileDescriptor}
  {mode : OpenMode}

theorem Shows.within (h : Shows i object append fs f) : f.cursor ≤ f.cells.length := by
  obtain ⟨m, hm⟩ := Option.ne_none_iff_exists'.mp h.isOpen
  have hon := h.held.sole.isOpen m hm
  rw [← h.offset, ← h.cells, ← hon.size]
  exact hon.offset

/-- The descriptor right after a switch that succeeded. -/
structure Ready (i : Fin maximumOpenFiles) (object : ObjectId) (fs : FileSystem) (f : File UInt8)
    (mode : OpenMode) (fx : FileX) (d : FileDescriptor) : Prop where
  sole : Sole fs.mounted object fx d
  isOpen : d.openMode = some mode
  same : SameDescriptor (fs.descriptors i) d
  cells : fx.content object = f.cells
  position : d.position = f.cursor
  offset : d.file.currentFileOffset = f.cursor

theorem Ready.size (h : Ready i object fs f mode fx d) :
    d.file.currentFileSize = f.cells.length := by
  rw [(h.sole.isOpen _ h.isOpen).size, h.cells]

theorem Shows.switched (h : Shows i object append fs f)
    (hsw : switchMode o fs.mounted fs.fx (fs.descriptors i) mode = (fx, d, none)) :
    Ready i object fs f mode fx d := by
  obtain ⟨hsole, hsame, hcontent, hswitched, _⟩ := h.held.switched hsw
  have hcells : fx.content object = f.cells := by rw [hcontent, h.cells]
  cases hswitched with
  | same hd => exact ⟨hsole, hd, hsame, hcells, h.position, h.offset⟩
  | reopened _ _ hd hpos hoff =>
    have hsaved : savedPosition (fs.descriptors i) = f.cursor := by
      rw [savedPosition, if_neg h.isOpen, h.offset]
    rw [hsaved] at hpos hoff
    rw [h.cells, Nat.min_eq_left h.within] at hoff
    exact ⟨hsole, hd, hsame, hcells, hpos, hoff⟩

theorem Shows.set {f' : File UInt8} (h : Shows i object append fs f)
    (hsole : Sole fs.mounted object fx d) (hsame : SameDescriptor (fs.descriptors i) d)
    (hopen : d.openMode ≠ none) (hcells : fx.content object = f'.cells)
    (hpos : d.position = f'.cursor) (hoff : d.file.currentFileOffset = f'.cursor) :
    Shows i object append (fs.setDescriptor i fx d) f' := by
  refine ⟨⟨?_, ?_⟩, ?_, ?_, hcells, ?_, ?_⟩ <;> rw [setDescriptor_self]
  · exact hsole
  · rw [hsame.allocated, h.held.allocated]
  · exact hopen
  · rw [hsame.append, h.append]
  · exact hpos
  · exact hoff

theorem Shows.read {fs' : FileSystem} {length : Int} {bytes : List UInt8}
    (h : Shows i object append fs f) (hi : slotOf file = some i)
    (hok : sysRead o fs file length = (fs', .ok bytes)) :
    Shows i object append fs' (f.read length.toNat).2 ∧ bytes = (f.read length.toNat).1 := by
  unfold sysRead at hok
  split at hok
  · cases hok
  · simp only [h.held.descriptorFor hi] at hok
    split at hok
    · cases hok
    · split at hok
      · rename_i h0
        cases hok
        exact ⟨by simpa [h0, File.read] using h, by simp [h0, File.read]⟩
      · rcases hsw : switchMode o fs.mounted fs.fx (fs.descriptors i) .read with ⟨fx, d, _ | e⟩ <;>
          rw [hsw] at hok
        · obtain ⟨rfl, hres⟩ := Prod.mk.inj hok
          have hready := h.switched hsw
          have hon := hready.sole.isOpen _ hready.isOpen
          have hopen : d.openMode ≠ none := by simp [hready.isOpen]
          cases hf : o .fileRead with
          | some fault =>
            obtain ⟨bytes, hread⟩ := o.read_fault fault fx d.file length.toNat
            cases fault <;> simp [hf, hread, Fault.status] at hres
          | none =>
            have hsole := fxFileRead_sole o hready.sole hopen none length.toNat
              (o.fxFileRead none fx d.file length.toNat).2.2.currentFileOffset
            obtain ⟨hbytes, hcursor, hstatus⟩ :
                (o.fxFileRead none fx d.file length.toNat).2.1 = (f.read length.toNat).1 ∧
                (o.fxFileRead none fx d.file length.toNat).2.2.currentFileOffset =
                  (f.read length.toNat).2.cursor ∧
                ((o.fxFileRead none fx d.file length.toNat).1 = .success ∨
                  (o.fxFileRead none fx d.file length.toNat).1 = .endOfFile) := by
              by_cases hend : d.file.currentFileSize ≤ d.file.currentFileOffset
              · rw [o.read_end _ _ _ hend]
                rw [hready.offset, hready.size] at hend
                simp [File.read, List.drop_eq_nil_of_le hend, hready.offset]
              · obtain ⟨actual, rfl, hread⟩ := o.read_file fx d.file length.toNat (not_le.mp hend)
                simp [hread, File.read, hon.sameObject, hready.cells, hready.offset]
            rw [hf] at hres
            refine ⟨h.set hsole (hready.same.trans ⟨rfl, rfl, rfl, rfl, rfl⟩) hopen hready.cells
              hcursor hcursor, ?_⟩
            rw [← hbytes]
            rcases hstatus with hst | hst <;> simpa [hst] using hres.symm
        · cases hok

theorem positionForWrite_ready {d' : FileDescriptor} (hready : Ready i object fs f .write fx d)
    (happend : d.append = append) (hpos : positionForWrite o d = (d', none)) :
    Sole fs.mounted object fx d' ∧ SameDescriptor d d' ∧ d'.openMode = some .write ∧
      d'.file.currentFileOffset = if append then f.cells.length else f.cursor := by
  subst happend
  unfold positionForWrite at hpos
  split at hpos
  · rename_i ha
    have hsought := hready.sole.seek o (by simp [hready.isOpen]) (o .appendSeek)
      d.file.currentFileSize d.file.currentFileSize
    cases hf : o .appendSeek with
    | some fault =>
      obtain ⟨e, he⟩ := Option.ne_none_iff_exists'.mp fault.filexErrno_ne_none
      simp [hf, he] at hpos
    | none =>
      rw [hf] at hsought hpos
      obtain ⟨rfl, _⟩ := Prod.mk.inj hpos
      exact ⟨hsought, ⟨rfl, rfl, rfl, rfl, rfl⟩, hready.isOpen,
        by simp [hready.size, ha]⟩
  · rename_i ha
    obtain ⟨rfl, _⟩ := Prod.mk.inj hpos
    exact ⟨hready.sole, ⟨rfl, rfl, rfl, rfl, rfl⟩, hready.isOpen, by simp [ha, hready.offset]⟩

theorem Shows.write {fs' : FileSystem} {buffer : List UInt8} {written : Nat}
    (h : Shows i object append fs f) (hi : slotOf file = some i)
    (hok : sysWrite o fs file buffer = (fs', .ok written)) :
    Shows i object append fs' (f.write append buffer) ∧ written = buffer.length := by
  unfold sysWrite at hok
  simp only [h.held.descriptorFor hi] at hok
  split at hok
  · cases hok
  · split at hok
    · rename_i h0
      cases hok
      exact ⟨by simpa [File.write, List.length_eq_zero_iff.mp h0] using h, h0.symm⟩
    · rename_i hne
      have hbuffer : buffer ≠ [] := by simpa using hne
      rcases hsw : switchMode o fs.mounted fs.fx (fs.descriptors i) .write with ⟨fx, d, _ | e⟩ <;>
        rw [hsw] at hok
      · have hready := h.switched hsw
        rcases hp : positionForWrite o d with ⟨d', _ | e⟩ <;> simp only [hp] at hok
        · obtain ⟨hsole, hsame, hmode, hoff⟩ :=
            positionForWrite_ready hready (hready.same.append.trans h.append) hp
          have hon := hsole.isOpen _ hmode
          obtain ⟨rfl, hres⟩ := Prod.mk.inj hok
          cases hf : o .fileWrite with
          | some fault => cases fault <;> simp [hf, Fault.status] at hres
          | none =>
            have hput := fxFileWrite_sole o hsole hmode none buffer
              (o.fxFileWrite none fx d'.file buffer).2.2.currentFileOffset
            rw [hf] at hres
            rw [fxFileWrite_open o hon] at hres hput ⊢
            refine ⟨h.set hput (hready.same.trans (hsame.trans ⟨rfl, rfl, rfl, rfl, rfl⟩))
              (by simp [hmode]) ?_ ?_ ?_, ?_⟩
            · simp [File.write, hbuffer, hready.cells, hoff]
            · simp [File.write, hbuffer, hoff]
            · simp [File.write, hbuffer, hoff]
            · simpa using hres.symm
        · cases hok
      · cases hok

theorem seekTarget_ok {maximum base target : Nat} {offset : Int}
    (h : seekTarget maximum base offset = .ok target) : target = (base + offset).toNat := by
  unfold seekTarget at h
  split at h
  · cases h
  · split at h
    · split at h <;> cases h
      omega
    · simp only at h
      split at h <;> cases h
      omega

theorem Shows.lseek {fs' : FileSystem} {offset : Int} {origin : Origin} {target : Nat}
    (h : Shows i object append fs f) (hi : slotOf file = some i)
    (hok : sysLseek o fs file offset origin = (fs', .ok target)) :
    target = (cursorBase f origin + offset).toNat ∧
      (target ≤ f.cells.length → Shows i object append fs' (f.seek target)) := by
  obtain ⟨m, hm⟩ := Option.ne_none_iff_exists'.mp h.isOpen
  have hsize : (fs.descriptors i).file.currentFileSize = f.cells.length := by
    rw [(h.held.sole.isOpen m hm).size, h.cells]
  unfold sysLseek at hok
  simp only [h.held.descriptorFor hi, if_neg h.isOpen] at hok
  have hbase : ∀ base, seekBase (fs.descriptors i) origin = some base →
      base = cursorBase f origin := by
    intro base hbase
    cases origin <;> simp [seekBase, cursorBase, h.position, hsize] at hbase ⊢ <;> omega
  cases hb : seekBase (fs.descriptors i) origin with
  | none =>
    rw [hb] at hok
    cases hok
  | some base =>
    simp only [hb] at hok
    split at hok
    · cases hok
    · rename_i t ht
      have htarget := seekTarget_ok ht
      rw [hbase base hb] at htarget
      cases hf : o .seek with
      | some fault => cases fault <;> simp [hf, Fault.status] at hok
      | none =>
        simp only [hf, o.seek_file, ne_eq, not_true, if_false,
          setDescriptor_setDescriptor] at hok
        obtain ⟨rfl, hres⟩ := Prod.mk.inj hok
        obtain rfl := Except.ok.inj hres
        refine ⟨htarget, fun hle => ?_⟩
        have hsought := h.held.sole.seek o h.isOpen none t t
        rw [o.seek_file] at hsought
        refine h.set hsought ⟨rfl, rfl, rfl, rfl, rfl⟩ h.isOpen h.cells rfl ?_
        rw [hsize]
        exact Nat.min_eq_left hle

theorem resized_content {content content' : List UInt8} {handle handle' : FxFile} {length : Nat}
    (h : Resized o content handle length content' handle' none)
    (hsize : handle.currentFileSize = content.length) :
    content' = resize 0 content length ∧ handle'.currentFileSize = length := by
  cases h with
  | same heq => exact ⟨by rw [heq, resize_length], by rw [hsize, heq]⟩
  | cut hless _ hend => exact ⟨(resize_of_le 0 hless.le).symm, hend⟩
  | grown hmore _ hchunks _ hend =>
    cases hchunks with
    | full _ =>
      have : content.length + (length - content.length) = length := by omega
      rw [this] at hend ⊢
      exact ⟨(resize_of_ge 0 hmore.le).symm, hend⟩

theorem Shows.ftruncate {fs' : FileSystem} {length : Int} (h : Shows i object append fs f)
    (hi : slotOf file = some i) (hok : sysFtruncate o fs file length = (fs', .ok ())) :
    Shows i object append fs' (f.truncate 0 length.toNat) := by
  unfold sysFtruncate at hok
  split at hok
  · cases hok
  · simp only [h.held.descriptorFor hi] at hok
    split at hok
    · cases hok
    · rcases hsw : switchMode o fs.mounted fs.fx (fs.descriptors i) .write with ⟨fx, d, _ | e⟩ <;>
        rw [hsw] at hok
      · have hready := h.switched hsw
        have hopen : d.openMode ≠ none := by simp [hready.isOpen]
        obtain ⟨fx', handle, e, hre, hsole, hresized⟩ :=
          resizeFile_sole (o := o) hready.sole hready.isOpen length.toNat
        simp only [hre] at hok
        cases e with
        | some e => cases hok
        | none =>
          rw [hready.cells] at hresized
          obtain ⟨hcontent, hsize⟩ := resized_content hresized hready.size
          obtain ⟨rfl, hres⟩ := Prod.mk.inj hok
          cases hf : o .truncateSeek with
          | some fault =>
            obtain ⟨e, he⟩ := Option.ne_none_iff_exists'.mp fault.filexErrno_ne_none
            simp [hf, he] at hres
          | none =>
            refine h.set (hsole.seek o hopen none (min d.position length.toNat)
              (min d.position length.toNat))
              (hready.same.trans ⟨rfl, rfl, rfl, rfl, rfl⟩) hopen hcontent ?_ ?_
            · simp [File.truncate, hready.position]
            · simp [File.truncate, hready.position, hsize]
      · cases hok

def seekResult : SysCall → Answer → Option Int
  | .lseek _ _ _, .number target => some target
  | _, _ => none

/-- The call succeeds, and seeks to no place behind the end. -/
def Succeeds (file : Int) (fs : FileSystem) (c : Outcomes × SysCall) : Prop :=
  ∃ a ∈ (exec c.1 fs c.2).2.toOption, ∀ i ∈ slotOf file, ∀ target ∈ seekResult c.2 a,
    target ≤ (fs.fx.content (objectOf fs i)).length

instance (file : Int) (fs : FileSystem) (c : Outcomes × SysCall) :
    Decidable (Succeeds file fs c) := inferInstanceAs (Decidable (∃ _ ∈ _, _))

theorem answered_ok {α : Type} {g : α → Answer} {r : FileSystem × Except Errno α} {a : Answer}
    (h : (answered g r).2 = .ok a) : ∃ x, r = ((answered g r).1, .ok x) ∧ a = g x := by
  obtain ⟨fs', _ | x⟩ := r
  · cases h
  · exact ⟨x, rfl, (Except.ok.inj h).symm⟩

theorem toOption_eq_some {α : Type} {r : Except Errno α} {a : α} (h : r.toOption = some a) :
    r = .ok a := by
  cases r with
  | error e => cases h
  | ok x => exact congrArg _ (Option.some.inj h)

/-- One call on the descriptor is that call on the bytes with the cursor. -/
theorem Shows.exec {call : SysCall} {a : Answer} (h : Shows i object append fs f)
    (hi : slotOf file = some i) (hon : DescriptorCall file call)
    (hok : (exec o fs call).2 = .ok a)
    (hrange : ∀ target ∈ seekResult call a, target ≤ (fs.fx.content (objectOf fs i)).length) :
    Shows i object append (exec o fs call).1 (cursorCall append f call).1 ∧
      a = (cursorCall append f call).2 := by
  cases call with
  | read n length =>
    obtain rfl : n = file := hon
    obtain ⟨bytes, hr, rfl⟩ := answered_ok hok
    obtain ⟨hshows, rfl⟩ := h.read hi hr
    exact ⟨hshows, rfl⟩
  | write n buffer =>
    obtain rfl : n = file := hon
    obtain ⟨written, hr, rfl⟩ := answered_ok hok
    obtain ⟨hshows, rfl⟩ := h.write hi hr
    exact ⟨hshows, rfl⟩
  | lseek n offset origin =>
    obtain rfl : n = file := hon
    obtain ⟨target, hr, rfl⟩ := answered_ok hok
    obtain ⟨htarget, hshows⟩ := h.lseek hi hr
    have hle : target ≤ f.cells.length := by
      simpa [seekResult, h.held.sole.objectOf, h.cells] using hrange
    subst htarget
    exact ⟨hshows hle, rfl⟩
  | ftruncate n length =>
    obtain rfl : n = file := hon
    obtain ⟨_, hr, rfl⟩ := answered_ok hok
    exact ⟨h.ftruncate hi hr, rfl⟩
  | _ => exact absurd hon id

theorem justOpened_shows {flags : OpenFlags} (h : JustOpened fs flags i object) :
    Shows i object flags.append fs
      ⟨fs.fx.content object, if flags.append then (fs.fx.content object).length else 0⟩ :=
  ⟨justOpened_held h, h.isOpen, h.append, rfl, h.position, h.offset.trans h.position⟩

end

/-- The file that open finds, with the cursor at its start or, for O_APPEND, at its end. -/
def openedFile (fs : FileSystem) (i : Fin maximumOpenFiles) (flags : OpenFlags) : File UInt8 :=
  let content := fs.fx.content (objectOf fs i)
  ⟨content, if flags.append then content.length else 0⟩

theorem mode_switching_invisible {fs : FileSystem} (hfs : EntrySizes fs.fx) {o : Outcomes}
    {path : CStr} {flags : OpenFlags} {file : Int}
    (hopen : (sysOpen o fs path flags).2 = .ok file) {calls : List (Outcomes × SysCall)}
    (hon : ∀ c ∈ calls, DescriptorCall file c.2)
    (hok : Runs.Along stepCall (Succeeds file) (sysOpen o fs path flags).1 calls) :
    let s₀ := (sysOpen o fs path flags).1
    let s := Runs.run stepCall s₀ calls
    let cursorStep := fun f c => (cursorCall flags.append f (Prod.snd c)).1
    ∃ i, slotOf file = some i ∧
      let f := Runs.run cursorStep (openedFile s₀ i flags) calls
      Runs.outputs stepCall (fun s c => (exec (Prod.fst c) s c.2).2) s₀ calls =
        Runs.outputs cursorStep (fun f c => .ok (cursorCall flags.append f (Prod.snd c)).2)
          (openedFile s₀ i flags) calls ∧
      objectOf s i = objectOf s₀ i ∧ s.fx.content (objectOf s i) = f.cells ∧
      ∀ o target, (sysLseek o s file 0 .cur).2 = .ok target → target = f.cursor := by
  intro s₀ s cursorStep
  obtain ⟨i, object, hi, hjust⟩ := sysOpen_justOpened hfs hopen
  have hobject : objectOf s₀ i = object := hjust.sole.objectOf
  have hstart : Shows i object flags.append s₀ (openedFile s₀ i flags) := by
    simp only [openedFile, hobject]
    exact justOpened_shows hjust
  have hstep : ∀ s f, ∀ c ∈ calls, Shows i object flags.append s f → Succeeds file s c →
      Shows i object flags.append (stepCall s c) (cursorStep f c) ∧
        (exec c.1 s c.2).2 = .ok (cursorCall flags.append f c.2).2 := by
    intro s f c hc hs ⟨a, ha, hrange⟩
    have hcall : (exec c.1 s c.2).2 = .ok a := toOption_eq_some ha
    obtain ⟨hnext, rfl⟩ := hs.exec hi (hon c hc) hcall (hrange i hi)
    exact ⟨hnext, hcall⟩
  obtain ⟨hend, houts⟩ := Runs.simulation hstep hstart hok
  refine ⟨i, hi, houts, ?_, ?_, fun o target hcur => ?_⟩
  · rw [hobject]
    exact hend.held.sole.objectOf
  · rw [hend.held.sole.objectOf]
    exact hend.cells
  · obtain ⟨htarget, _⟩ := hend.lseek hi (Prod.ext rfl hcur)
    simpa [cursorBase] using htarget

/-- Two switches each way, a seek, and a file that grows. -/
def switchingCalls : List (Outcomes × SysCall) :=
  [(quiet, .write 3 [1, 2, 3]), (quiet, .lseek 3 1 .set), (quiet, .read 3 1),
    (quiet, .write 3 [9]), (quiet, .ftruncate 3 4), (quiet, .read 3 5)]

set_option maxRecDepth 40000 in
theorem mode_switching_invisible_grown :
    let s₀ := (sysOpen quiet emptyVolumes ['x'] readWriteCreate).1
    let s := Runs.run stepCall s₀ switchingCalls
    let cursorStep := fun f c => (cursorCall false f (Prod.snd c)).1
    ∃ i, slotOf 3 = some i ∧
      let f := Runs.run cursorStep (openedFile s₀ i readWriteCreate) switchingCalls
      Runs.outputs stepCall (fun s c => (exec (Prod.fst c) s c.2).2) s₀ switchingCalls =
        Runs.outputs cursorStep (fun f c => .ok (cursorCall false f (Prod.snd c)).2)
          (openedFile s₀ i readWriteCreate) switchingCalls ∧
      objectOf s i = objectOf s₀ i ∧ s.fx.content (objectOf s i) = f.cells ∧
      ∀ o target, (sysLseek o s 3 0 .cur).2 = .ok target → target = f.cursor :=
  mode_switching_invisible entrySizes_emptyVolumes (by decide)
    (by simp [switchingCalls, DescriptorCall]) (by decide)

end SimPLCity.ModeSwitching
