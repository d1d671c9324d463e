import SimPLCity.CallEffects

/-! One descriptor that is the only one on its file. `Sole` ties its FileX handle to the
content of the file; `Switched` lists the ends that a switch between reading and writing
can come to, with the saved position, the handle's offset and the faults behind each. -/

namespace SimPLCity.SoleDescriptor
open PathText FileXVolume PathTree FileDescriptors FileNamespace LocatedPaths NamespaceEffects
  HandleSteps CallEffects CursorFile

/-- The descriptor's path resolves to the file entry of `object`. -/
structure Resolves (mounted : Volume → Bool) (fx : FileX) (d : FileDescriptor)
    (object : ObjectId) : Prop where
  entry : ∃ r, resolveNormalizedPath mounted d.path = .ok r ∧
    ¬ (r.virtualRoot || r.mountRoot) = true ∧
    fx.find? r.volume r.localPath = some ⟨object, false⟩

/-- The open handle knows the size of the file, and no other handle on the file can write.
Other readers are left over from closes that failed. -/
structure OpenOn (object : ObjectId) (fx : FileX) (d : FileDescriptor) (m : OpenMode) :
    Prop where
  sameObject : d.file.object = object
  sameMode : d.file.mode = m
  size : d.file.currentFileSize = (fx.content object).length
  offset : d.file.currentFileOffset ≤ d.file.currentFileSize
  record : ∃ r ∈ fx.opened, r.handle = d.file.handle ∧ r.object = object ∧ r.mode = m
  others : ∀ r ∈ fx.opened, r.object = object → r.handle ≠ d.file.handle →
    m = .read ∧ r.mode = .read
  entry : m = .read → fx.entrySize object = (fx.content object).length

/-- Without a handle the directory entry has the size, or a writer that could not be closed
keeps every further open away. -/
def ClosedOn (object : ObjectId) (fx : FileX) : Prop :=
  fx.entrySize object = (fx.content object).length ∨
    ∃ r ∈ fx.opened, r.object = object ∧ r.mode = .write

structure Sole (mounted : Volume → Bool) (object : ObjectId) (fx : FileX) (d : FileDescriptor) :
    Prop where
  path : Resolves mounted fx d object
  isOpen : ∀ m, d.openMode = some m → OpenOn object fx d m
  isClosed : d.openMode = none → ClosedOn object fx

/-- The position that survives closing the handle. -/
def savedPosition (d : FileDescriptor) : Nat :=
  if d.openMode = none then d.position else d.file.currentFileOffset

/-- The handle is closed, if it is open, and opened again in `mode`: no FileX call on the way
fails and no other handle on the file is in conflict. -/
structure Reopens (o : Outcomes) (fx : FileX) (d : FileDescriptor) (object : ObjectId)
    (mode : OpenMode) : Prop where
  other : d.openMode ≠ some mode
  close : d.openMode ≠ none → o .switchClose = none
  opened : o .fileOpen = none
  free : ∀ r ∈ fx.opened, r.object = object →
    d.openMode = none ∨ r.handle ≠ d.file.handle → mode = .read ∧ r.mode = .read

/-- The ends of a switch to `mode`. -/
inductive Switched (o : Outcomes) (fx : FileX) (d : FileDescriptor) (object : ObjectId)
    (mode : OpenMode) : FileX × FileDescriptor × Option Errno → Prop
  | same (h : d.openMode = some mode) : Switched o fx d object mode (fx, d, none)
  | handleless {fx' d' e} (h : d'.openMode = none) (position : d'.position = savedPosition d) :
      Switched o fx d object mode (fx', d', some e)
  | seekFailed {fx' d' e} (reopens : Reopens o fx d object mode) (fault : o .modeSeek ≠ none)
      (h : d'.openMode = some mode) (position : d'.position = savedPosition d)
      (offset : d'.file.currentFileOffset = 0) : Switched o fx d object mode (fx', d', some e)
  | reopened {fx' d'} (reopens : Reopens o fx d object mode) (fault : o .modeSeek = none)
      (h : d'.openMode = some mode) (position : d'.position = savedPosition d)
      (offset : d'.file.currentFileOffset =
        min (savedPosition d) (fx.content object).length) :
      Switched o fx d object mode (fx', d', none)

section
variable {mounted : Volume → Bool} {o : Outcomes} {fx fx' : FileX} {d d' : FileDescriptor}
  {object : ObjectId} {mode : OpenMode}

theorem Resolves.of_frame (h : Resolves mounted fx d object) (hm : fx'.media = fx.media)
    (hp : d'.path = d.path) : Resolves mounted fx' d' object := by
  obtain ⟨r, hr, hroot, hn⟩ := h.entry
  exact ⟨r, by rw [hp]; exact hr, hroot, by rw [FileX.find?, hm]; exact hn⟩

theorem conflicts_false (h : fx.conflicts object mode = false) :
    ∀ r ∈ fx.opened, r.object = object → mode = .read ∧ r.mode = .read := by
  intro r hr ho
  cases mode with
  | read =>
    simp only [FileX.conflicts, List.any_eq_false, Bool.and_eq_true, decide_eq_true_eq,
      not_and] at h
    cases hm : r.mode with
    | read => exact ⟨rfl, rfl⟩
    | write => exact absurd hm (h r hr ho)
  | write =>
    simp only [FileX.conflicts, List.any_eq_false, decide_eq_true_eq] at h
    exact absurd ho (h r hr)

theorem closeForSwitch_sole (h : Sole mounted object fx d) :
    Sole mounted object (closeForSwitch o fx d).1 (closeForSwitch o fx d).2.1 ∧
      (closeForSwitch o fx d).2.1.openMode = none ∧
      (closeForSwitch o fx d).2.1.position = savedPosition d ∧
      (closeForSwitch o fx d).1.content = fx.content ∧
      ((closeForSwitch o fx d).2.2 = none → (d.openMode ≠ none → o .switchClose = none) ∧
        ∀ r ∈ fx.opened, d.openMode = none ∨ r.handle ≠ d.file.handle →
          r ∈ (closeForSwitch o fx d).1.opened) := by
  unfold closeForSwitch
  cases hd : d.openMode with
  | none => exact ⟨h, hd, by simp [savedPosition, hd], rfl, fun _ => ⟨by simp, fun _ hr _ => hr⟩⟩
  | some m =>
    have hon := h.isOpen m hd
    have hsaved : d.file.currentFileOffset = savedPosition d := by simp [savedPosition, hd]
    cases hf : o .switchClose with
    | some f =>
      rw [o.close_fault]
      refine ⟨⟨h.path.of_frame rfl rfl, by simp, fun _ => ?_⟩, rfl, hsaved, rfl, by simp⟩
      cases m with
      | read => exact Or.inl (hon.entry rfl)
      | write =>
        obtain ⟨r, hr, _, ho, hm⟩ := hon.record
        exact Or.inr ⟨r, hr, ho, hm⟩
    | none =>
      rw [o.close_file]
      refine ⟨⟨h.path.of_frame rfl rfl, by simp, fun _ => Or.inl ?_⟩, rfl, hsaved, rfl,
        fun _ => ⟨by simp, fun r hr hne => ?_⟩⟩
      · cases m with
        | read => simpa [FileX.closed, hon.sameMode] using hon.entry rfl
        | write => simp [FileX.closed, hon.sameMode, hon.sameObject, hon.size]
      · have hne := hne.resolve_left (by simp)
        simp [FileX.closed, hr, hne]

theorem ClosedOn.size (h : ClosedOn object fx)
    (hfree : ∀ r ∈ fx.opened, r.object = object → mode = .read ∧ r.mode = .read) :
    fx.entrySize object = (fx.content object).length := by
  rcases h with hsize | ⟨w, hw, ho, hm⟩
  · exact hsize
  · exact absurd ((hfree w hw ho).2.symm.trans hm) (by simp)

theorem opened_sole {r : ResolvedPath} {offset : Nat} (h : Sole mounted object fx d)
    (hd : d.openMode = none) (hoffset : offset ≤ (fx.content object).length)
    (hfree : ∀ r ∈ fx.opened, r.object = object → mode = .read ∧ r.mode = .read) :
    Sole mounted object
      { fx with
        opened := ⟨fx.nextHandle, r.volume, object, mode⟩ :: fx.opened
        nextHandle := fx.nextHandle + 1 }
      { d with
        file := ⟨fx.nextHandle, r.volume, object, mode, offset, fx.entrySize object⟩
        openMode := some mode } := by
  have hsize := (h.isClosed hd).size hfree
  refine ⟨h.path.of_frame rfl rfl, fun m hm => ?_, by simp⟩
  obtain rfl : mode = m := Option.some.inj hm
  refine ⟨rfl, rfl, hsize, by simpa [hsize] using hoffset, ⟨_, List.mem_cons_self, rfl, rfl, rfl⟩,
    fun w hw ho hne => ?_, fun _ => hsize⟩
  rcases List.mem_cons.mp hw with rfl | hw
  · exact absurd rfl hne
  · exact hfree w hw ho

theorem reopen_sole (o : Outcomes) (mode : OpenMode) (h : Sole mounted object fx d) (hd : d.openMode = none) :
    Sole mounted object (reopen o mounted fx d mode).1 (reopen o mounted fx d mode).2.1 ∧
      (reopen o mounted fx d mode).2.1.position = d.position ∧
      ((∃ e, (reopen o mounted fx d mode).2.2 = some e ∧
          (reopen o mounted fx d mode).2.1.openMode = none) ∨
        (reopen o mounted fx d mode).2.1.openMode = some mode ∧ o .fileOpen = none ∧
          (∀ r ∈ fx.opened, r.object = object → mode = .read ∧ r.mode = .read) ∧
          ((∃ e, (reopen o mounted fx d mode).2.2 = some e ∧ o .modeSeek ≠ none ∧
              (reopen o mounted fx d mode).2.1.file.currentFileOffset = 0) ∨
            (reopen o mounted fx d mode).2.2 = none ∧ o .modeSeek = none ∧
              (reopen o mounted fx d mode).2.1.file.currentFileOffset =
                min d.position (fx.content object).length)) := by
  rcases reopen_cases o mounted fx d mode with ⟨e, hfail⟩ | ⟨r, n, hr, _, hf, hn, _, hc, hok⟩
  · rw [hfail]
    exact ⟨⟨h.path.of_frame rfl rfl, fun m hm => absurd (hd.symm.trans hm) (by simp),
      fun _ => h.isClosed hd⟩, rfl, Or.inl ⟨e, rfl, hd⟩⟩
  · obtain ⟨r', hr', _, hn'⟩ := h.path.entry
    obtain rfl : r = r' := Except.ok.inj (hr.symm.trans hr')
    obtain rfl : n = ⟨object, false⟩ := Option.some.inj (hn.symm.trans hn')
    have hfree := conflicts_false hc
    have hsize := (h.isClosed hd).size hfree
    rw [hok]
    cases hseek : o .modeSeek with
    | some f =>
      obtain ⟨e, hfe⟩ := Option.ne_none_iff_exists'.mp f.filexErrno_ne_none
      rw [o.seek_fault]
      exact ⟨opened_sole h hd (Nat.zero_le _) hfree, rfl,
        Or.inr ⟨rfl, hf, hfree, Or.inl ⟨e, hfe, by simp, rfl⟩⟩⟩
    | none =>
      rw [o.seek_file]
      refine ⟨opened_sole h hd ?_ hfree, rfl, Or.inr ⟨rfl, hf, hfree, Or.inr ⟨rfl, rfl, ?_⟩⟩⟩
      · simp [hsize]
      · simp [hsize]

theorem switchMode_sole {e : Option Errno} (h : Sole mounted object fx d)
    (hsw : switchMode o mounted fx d mode = (fx', d', e)) :
    Sole mounted object fx' d' ∧ Switched o fx d object mode (fx', d', e) := by
  unfold switchMode at hsw
  split at hsw
  · rename_i hd
    cases hsw
    exact ⟨h, .same hd⟩
  · rename_i hd
    obtain ⟨hclose, hnone, hpos, hcontent, hopened⟩ := closeForSwitch_sole (o := o) h
    rcases hc : closeForSwitch o fx d with ⟨fx₁, d₁, _ | e₁⟩ <;>
      rw [hc] at hsw hclose hnone hpos hcontent hopened
    · obtain ⟨hre, hpos', hend⟩ := reopen_sole o mode hclose hnone
      obtain ⟨hcloseOk, hkept⟩ := hopened rfl
      simp only at hsw hpos hcontent hkept
      rw [hsw] at hre hpos' hend
      simp only at hre hpos' hend
      rw [hpos, hcontent] at hend
      refine ⟨hre, ?_⟩
      rcases hend with ⟨e', rfl, hmode⟩ | ⟨hmode, hopen, hfree, hseek⟩
      · exact .handleless hmode (hpos'.trans hpos)
      · have hreopens : Reopens o fx d object mode :=
          ⟨hd, hcloseOk, hopen, fun r hr ho hne => hfree r (hkept r hr hne) ho⟩
        rcases hseek with ⟨e', rfl, hfault, hoffset⟩ | ⟨rfl, hfault, hoffset⟩
        · exact .seekFailed hreopens hfault hmode (hpos'.trans hpos) hoffset
        · exact .reopened hreopens hfault hmode (hpos'.trans hpos) hoffset
    · cases hsw
      exact ⟨hclose, .handleless hnone hpos⟩

theorem Sole.adjust (h : Sole mounted object fx d) {offset : Nat} (position : Nat)
    (hoffset : offset ≤ d.file.currentFileSize) :
    Sole mounted object fx
      { d with position := position, file := { d.file with currentFileOffset := offset } } := by
  refine ⟨h.path.of_frame rfl rfl, fun m hm => ?_, h.isClosed⟩
  have hon := h.isOpen m hm
  exact ⟨hon.sameObject, hon.sameMode, hon.size, hoffset, hon.record, hon.others, hon.entry⟩

theorem Sole.put (h : Sole mounted object fx d) (hd : d.openMode = some .write)
    (content : List UInt8) {offset : Nat} (position : Nat) (hoffset : offset ≤ content.length) :
    Sole mounted object { fx with content := Function.update fx.content object content }
      { d with
        position := position
        file := { d.file with
          currentFileOffset := offset
          currentFileSize := content.length } } := by
  refine ⟨h.path.of_frame rfl rfl, fun m hm => ?_, fun hno => absurd (hd.symm.trans hno) (by simp)⟩
  obtain rfl : OpenMode.write = m := Option.some.inj (hd.symm.trans hm)
  have hon := h.isOpen _ hd
  exact ⟨hon.sameObject, hon.sameMode, by simp, hoffset, hon.record, hon.others, by simp⟩

theorem Sole.seek (h : Sole mounted object fx d) (x : Service) (hd : d.openMode ≠ none)
    (fault : Option Fault) (position target : Nat) :
    Sole mounted object fx
      { d with position := position, file := (x.fxFileExtendedSeek fault d.file target).2 } := by
  obtain ⟨m, hm⟩ := Option.ne_none_iff_exists'.mp hd
  obtain ⟨offset, hseek, hoffset⟩ := fxFileExtendedSeek_offset x fault d.file target
  rw [hseek]
  exact h.adjust position (hoffset (h.isOpen m hm).offset)

theorem fxFileWrite_open (x : Service) (hon : OpenOn object fx d .write) (bytes : List UInt8) :
    x.fxFileWrite none fx d.file bytes =
      (.success,
        { fx with
          content := Function.update fx.content object
            (overwrite (fx.content object) d.file.currentFileOffset bytes) },
        { d.file with
          currentFileOffset := d.file.currentFileOffset + bytes.length
          currentFileSize :=
            (overwrite (fx.content object) d.file.currentFileOffset bytes).length }) := by
  have hlen := length_overwrite bytes (hon.size ▸ hon.offset)
  rw [x.write_file _ _ _ hon.sameMode]
  simp [hon.sameObject, hlen, hon.size]

theorem fxFileExtendedTruncateRelease_open (x : Service) (hon : OpenOn object fx d .write)
    (size : Nat) :
    x.fxFileExtendedTruncateRelease none fx d.file size =
      (.success,
        { fx with
          content := Function.update fx.content object ((fx.content object).take size) },
        { d.file with
          currentFileOffset := min d.file.currentFileOffset size
          currentFileSize := ((fx.content object).take size).length }) := by
  have : min (fx.content object).length size = min size (fx.content object).length :=
    Nat.min_comm ..
  rw [x.truncate_file _ _ _ hon.sameMode]
  simp [hon.sameObject, hon.size, this]

/-- What growing a file by zero chunks from `chunk` on can end in. -/
inductive Grown (o : Outcomes) (size : Nat) (chunk remaining : Nat) :
    Option Errno → Nat → Prop
  | full (h : ∀ k, chunk ≤ k → 64 * (k - chunk) < remaining → o (.zeroWrite k) = none) :
      Grown o size chunk remaining none (size + remaining)
  | stopped {e k} (hk : chunk ≤ k) (hless : 64 * (k - chunk) < remaining)
      (fault : o (.zeroWrite k) ≠ none)
      (before : ∀ j, chunk ≤ j → j < k → o (.zeroWrite j) = none) :
      Grown o size chunk remaining (some e) (size + 64 * (k - chunk))

theorem Grown.size_le {size chunk remaining size' : Nat} {e : Option Errno}
    (h : Grown o size chunk remaining e size') : size ≤ size' := by
  cases h with
  | full _ => omega
  | stopped _ _ _ _ => omega

theorem Grown.cons {size chunk remaining size' : Nat} {e : Option Errno}
    (hf : o (.zeroWrite chunk) = none)
    (h : Grown o (size + min remaining 64) (chunk + 1) (remaining - min remaining 64) e size') :
    Grown o size chunk remaining e size' := by
  cases h with
  | full hall =>
    have : size + min remaining 64 + (remaining - min remaining 64) = size + remaining := by omega
    rw [this]
    refine .full fun k hk hless => ?_
    by_cases h0 : k = chunk
    · rw [h0, hf]
    · exact hall k (by omega) (by omega)
  | @stopped e k hk hless fault before =>
    have : size + min remaining 64 + 64 * (k - (chunk + 1)) = size + 64 * (k - chunk) := by omega
    rw [this]
    refine .stopped (by omega) (by omega) fault fun j hj hjk => ?_
    by_cases h0 : j = chunk
    · rw [h0, hf]
    · exact before j (by omega) hjk

theorem writeZeroes_sole (h : Sole mounted object fx d) (hd : d.openMode = some .write)
    (hend : d.file.currentFileOffset = d.file.currentFileSize) {fuel : Nat} (chunk remaining : Nat)
    (hfuel : remaining ≤ fuel) :
    ∃ fx' file' e size, writeZeroes o fx d.file fuel chunk remaining = (fx', file', e) ∧
      Sole mounted object fx' { d with file := file' } ∧
      Grown o (fx.content object).length chunk remaining e size ∧
      fx'.content object =
        fx.content object ++ List.replicate (size - (fx.content object).length) 0 ∧
      file'.currentFileOffset = size ∧ file'.currentFileSize = size := by
  induction fuel generalizing fx d chunk remaining with
  | zero =>
    obtain rfl : remaining = 0 := Nat.le_zero.mp hfuel
    have hon := h.isOpen _ hd
    exact ⟨fx, d.file, none, _, rfl, h, .full (by simp), by simp, by simp [hend, hon.size],
      by simp [hon.size]⟩
  | succ fuel ih =>
    have hon := h.isOpen _ hd
    rw [writeZeroes]
    by_cases hr : remaining = 0
    · rw [if_pos hr]
      subst hr
      exact ⟨fx, d.file, none, _, rfl, h, .full (by simp), by simp, by simp [hend, hon.size],
        by simp [hon.size]⟩
    · rw [if_neg hr]
      cases hf : o (.zeroWrite chunk) with
      | some f =>
        obtain ⟨e, hfe⟩ := Option.ne_none_iff_exists'.mp f.filexErrno_ne_none
        refine ⟨fx, d.file, some e, _, by simp [hfe], h,
          .stopped le_rfl (by omega) (by simp [hf]) (by omega), by simp, by simp [hend, hon.size],
          by simp [hon.size]⟩
      | none =>
        -- one chunk is written at the end, then the rest
        have hput := fxFileWrite_open o hon (List.replicate (min remaining 64) 0)
        have hoff : d.file.currentFileOffset = (fx.content object).length := hend.trans hon.size
        rw [hoff, overwrite_length] at hput
        simp only [hput, filexErrno]
        have h₁ := h.put hd (fx.content object ++ List.replicate (min remaining 64) 0) d.position
          le_rfl
        obtain ⟨fx', file', e, size, hzero, hsole, hgrown, hcontent, hoffset, hsize⟩ :=
          ih h₁ hd rfl (chunk + 1) (remaining - min remaining 64) (by omega)
        have hlen : (fx.content object ++ List.replicate (min remaining 64) (0 : UInt8)).length =
            (fx.content object).length + min remaining 64 := by simp
        simp only [Function.update_self, hlen] at hgrown hcontent
        have hle := hgrown.size_le
        refine ⟨fx', file', e, size, ?_, hsole, hgrown.cons hf, ?_, hoffset, hsize⟩
        · rw [← hzero, hlen, List.length_replicate]
        · rw [hcontent, List.append_assoc, List.replicate_append_replicate]
          congr 2
          omega

/-- The ends of changing the size to `length`, with content and handle of each. -/
inductive Resized (o : Outcomes) (content : List UInt8) (file : FxFile) (length : Nat) :
    List UInt8 → FxFile → Option Errno → Prop
  | failed (e : Errno) : Resized o content file length content file (some e)
  | same (h : length = content.length) : Resized o content file length content file none
  | cut {file'} (h : length < content.length)
      (hoffset : file'.currentFileOffset = min file.currentFileOffset length)
      (hsize : file'.currentFileSize = length) :
      Resized o content file length (content.take length) file' none
  | grown {file' e size} (h : content.length < length) (seek : o .growSeek = none)
      (chunks : Grown o content.length 0 (length - content.length) e size)
      (hoffset : file'.currentFileOffset = size) (hsize : file'.currentFileSize = size) :
      Resized o content file length (content ++ List.replicate (size - content.length) 0) file' e

theorem resizeFile_sole (h : Sole mounted object fx d) (hd : d.openMode = some .write)
    (length : Nat) :
    ∃ fx' file' e, resizeFile o fx d.file length = (fx', file', e) ∧
      Sole mounted object fx' { d with file := file' } ∧
      Resized o (fx.content object) d.file length (fx'.content object) file' e := by
  have hon := h.isOpen _ hd
  have hoff := hon.offset
  unfold resizeFile
  simp only [hon.size]
  by_cases hless : length < (fx.content object).length
  · rw [if_pos hless]
    cases hf : o .truncate with
    | some f =>
      obtain ⟨e, hfe⟩ := Option.ne_none_iff_exists'.mp f.filexErrno_ne_none
      exact ⟨fx, d.file, some e, by simp [hfe], h, .failed e⟩
    | none =>
      rw [fxFileExtendedTruncateRelease_open o hon]
      refine ⟨_, _, none, rfl, h.put hd _ d.position ?_, ?_⟩
      · rw [hon.size] at hoff
        simp only [List.length_take]
        omega
      · simp only [Function.update_self]
        refine .cut hless rfl ?_
        simp only [List.length_take]
        omega
  · rw [if_neg hless]
    by_cases hmore : (fx.content object).length < length
    · rw [if_pos hmore]
      have hsought := h.seek o (by simp [hd]) (o .growSeek) d.position (fx.content object).length
      cases hf : o .growSeek with
      | some f =>
        obtain ⟨e, hfe⟩ := Option.ne_none_iff_exists'.mp f.filexErrno_ne_none
        exact ⟨fx, d.file, some e, by simp [hfe], h, .failed e⟩
      | none =>
        rw [hf] at hsought
        simp only [o.seek_file, filexErrno, hon.size, Nat.min_self] at hsought ⊢
        obtain ⟨fx', file', e, size, hzero, hsole, hgrown, hcontent, hoffset, hsize⟩ :=
          writeZeroes_sole (o := o) hsought hd rfl 0
            (length - (fx.content object).length) le_rfl
        refine ⟨fx', file', e, hzero, hsole, ?_⟩
        rw [hcontent]
        exact .grown hmore hf hgrown hoffset hsize
    · rw [if_neg hmore]
      exact ⟨fx, d.file, none, rfl, h, .same (by omega)⟩

/-- The object that the path of descriptor `i` leads to. -/
def objectOf (fs : FileSystem) (i : Fin maximumOpenFiles) : ObjectId :=
  match resolveNormalizedPath fs.mounted (fs.descriptors i).path with
  | .error _ => 0
  | .ok r => ((fs.fx.find? r.volume r.localPath).map Node.object).getD 0

theorem Sole.objectOf {fs : FileSystem} {i : Fin maximumOpenFiles}
    (h : Sole fs.mounted object fs.fx (fs.descriptors i)) : objectOf fs i = object := by
  obtain ⟨r, hr, _, hn⟩ := h.path.entry
  simp [SoleDescriptor.objectOf, hr, hn]

/-- The directory entry of a file that nobody writes has its size. -/
def EntrySizes (fx : FileX) : Prop := ∀ object, ClosedOn object fx

theorem openedEntry_sole {fs : FileSystem} {p path : CStr} {v : Volume} {k : List Name}
    {fx₀ : FileX} {info : EntryInformation} (hfs : EntrySizes fs.fx) (hn : Names fs path p v k)
    (hent : OpenedEntry fs v k fx₀ object info) (hp : d.path = p) (hd : d.openMode = none) :
    Sole fs.mounted object fx₀ d ∧ (fx₀.entrySize object = (fx₀.content object).length →
      info.size = (fx₀.content object).length) := by
  obtain ⟨r, hr, hres⟩ := resolveNormalizedPath_located hn.located
  have hroot : ¬ (r.virtualRoot || r.mountRoot) = true := by
    simp [hres.virtualRoot, hres.mountRoot, hn.entry]
  have hnone : ∀ {fx}, ∀ m, d.openMode = some m → OpenOn object fx d m := fun m hm =>
    absurd (hd.symm.trans hm) (by simp)
  cases hent with
  | @existing n found isFile =>
    refine ⟨⟨⟨r, hp ▸ hr, hroot, ?_⟩, hnone, fun _ => hfs _⟩, id⟩
    rw [FileX.find?, hres.volume, hres.key, found, ← isFile]
  | created h =>
    refine ⟨⟨⟨r, hp ▸ hr, hroot, ?_⟩, hnone, fun _ => Or.inl ?_⟩, ?_⟩
    · simp [FileX.find?, hres.volume, hres.key, FileX.addEntry]
    · simp [FileX.addEntry]
    · simp [FileX.addEntry]

theorem openDescriptor_sole {fs : FileSystem} {flags : OpenFlags}
    (h : Sole fs.mounted object fx d) (hd : d.openMode = none)
    (hok : openDescriptor o fs fx flags d = (fx', d', none)) :
    Sole fs.mounted object fx' d' ∧ SameDescriptor d d' ∧ d'.openMode ≠ none ∧
      fx.entrySize object = (fx.content object).length ∧
      (d'.position = 0 ∧ d'.file.currentFileOffset = 0 ∧ fx'.content object = [] ∨
        d'.position = d.position ∧
          d'.file.currentFileOffset = min d.position (fx.content object).length ∧
          fx'.content = fx.content) := by
  unfold openDescriptor at hok
  rcases hsw : switchMode o fs.mounted fx d (if d.writable then .write else .read) with
    ⟨fx₁, d₁, _ | e⟩
  · obtain ⟨hsole, hswitched⟩ := switchMode_sole h hsw
    have hsame := (switchMode_steps hsw).1.frame.2
    have hcontent := switchMode_content o fs.mounted fx d (if d.writable then .write else .read)
    rw [hsw] at hok hcontent
    simp only at hok hcontent
    cases hswitched with
    | same hd' => exact absurd (hd.symm.trans hd') (by simp)
    | reopened hre _ hmode hpos hoff =>
      have hentry := (h.isClosed hd).size fun r hr ho => hre.free r hr ho (Or.inl hd)
      have hsaved : savedPosition d = d.position := by simp [savedPosition, hd]
      rw [hsaved] at hpos hoff
      split at hok
      · rename_i htrunc
        rw [Bool.and_eq_true] at htrunc
        have hwrite : d₁.openMode = some .write := by
          rw [hmode, hsame.writable.symm, htrunc.1]
          rfl
        have hon := hsole.isOpen _ hwrite
        cases hf : o .truncate with
        | some f =>
          obtain ⟨e, hfe⟩ := Option.ne_none_iff_exists'.mp f.filexErrno_ne_none
          simp [hf, hfe] at hok
        | none =>
          rw [hf, fxFileExtendedTruncateRelease_open o hon] at hok
          simp only [filexErrno, Prod.mk.injEq, and_true] at hok
          obtain ⟨rfl, rfl⟩ := hok
          refine ⟨hsole.put hwrite _ 0 (by simp), ⟨hsame.path, hsame.allocated, hsame.readable,
            hsame.writable, hsame.append⟩, by simp [hwrite], hentry, Or.inl ⟨rfl, ?_, ?_⟩⟩
          · simp
          · simp
      · cases hok
        exact ⟨hsole, hsame, by simp [hmode], hentry, Or.inr ⟨hpos, hoff, hcontent⟩⟩
  · rw [hsw] at hok
    cases hok

/-- A freshly opened descriptor stands at the start of its file, or at the end for O_APPEND. -/
structure JustOpened (fs : FileSystem) (flags : OpenFlags) (i : Fin maximumOpenFiles)
    (object : ObjectId) : Prop where
  sole : Sole fs.mounted object fs.fx (fs.descriptors i)
  allocated : (fs.descriptors i).allocated = true
  readable : (fs.descriptors i).readable = decide (flags.access ≠ .wronly)
  writable : (fs.descriptors i).writable = decide (flags.access ≠ .rdonly)
  append : (fs.descriptors i).append = flags.append
  isOpen : (fs.descriptors i).openMode ≠ none
  position : (fs.descriptors i).position =
    if flags.append then (fs.fx.content object).length else 0
  offset : (fs.descriptors i).file.currentFileOffset = (fs.descriptors i).position

theorem sysOpen_justOpened {fs : FileSystem} {path : CStr} {flags : OpenFlags} {file : Int}
    (hfs : EntrySizes fs.fx) (hok : (sysOpen o fs path flags).2 = .ok file) :
    ∃ i object, slotOf file = some i ∧
      JustOpened (sysOpen o fs path flags).1 flags i object := by
  rcases sysOpen_cases o fs path flags with
    ⟨_, e, herr⟩ | ⟨p, v, k, slot, fx₀, object, info, fx, d, hn, _, hent, _, hend⟩
  · rw [herr] at hok
    cases hok
  · rcases hend with ⟨e, herr⟩ | ⟨_, hod, hsys⟩
    · rw [herr] at hok
      cases hok
    · rw [hsys] at hok ⊢
      obtain rfl := Except.ok.inj hok
      obtain ⟨hsole, hinfo⟩ := openedEntry_sole (d := newDescriptor flags p info) hfs hn hent rfl rfl
      obtain ⟨hsole', hsame, hopen, hentry, hend⟩ := openDescriptor_sole hsole rfl hod
      have hsize := hinfo hentry
      refine ⟨slot, object, slotOf_fileNumber slot, ?_⟩
      have hself : (fs.setDescriptor slot fx d).descriptors slot = d := setDescriptor_self ..
      refine ⟨?_, ?_, ?_, ?_, ?_, ?_, ?_, ?_⟩ <;> simp only [hself]
      · exact hsole'
      · exact hsame.allocated
      · exact hsame.readable
      · exact hsame.writable
      · exact hsame.append
      · exact hopen
      · rcases hend with ⟨hpos, _, hcontent⟩ | ⟨hpos, _, hcontent⟩
        · simp [hpos, hcontent]
        · rw [hpos, setDescriptor_fx, hcontent, ← hsize]
          rfl
      · rcases hend with ⟨hpos, hoff, _⟩ | ⟨hpos, hoff, _⟩
        · rw [hpos, hoff]
        · rw [hpos, hoff, ← hsize]
          simp only [newDescriptor]
          split <;> omega

end

end SimPLCity.SoleDescriptor
