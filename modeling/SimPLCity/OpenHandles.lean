import SimPLCity.SoleDescriptor

/-! The open files in every reachable state, with any number of descriptors: a writer is
alone on its file, every handle knows the size of its file and stands within it, and the
directory entry of a file without a writer has its size. -/

namespace SimPLCity.OpenHandles
open PathText FileXVolume PathTree FileDescriptors FileNamespace LocatedPaths NamespaceEffects
  HandleSteps CallEffects SoleDescriptor

/-- FileX's list of open files. -/
structure Registry (fx : FileX) : Prop where
  objects : ∀ v k n, (fx.media v).find? k = some n → n.object < fx.nextObject
  counted : ∀ r ∈ fx.opened, r.handle < fx.nextHandle ∧ r.object < fx.nextObject
  unique : ∀ r ∈ fx.opened, ∀ w ∈ fx.opened, r.handle = w.handle → r = w
  sizes : EntrySizes fx

/-- The open handle of a descriptor is on the object it names. -/
def Own (fx : FileX) (d : FileDescriptor) : Prop :=
  ∀ m, d.openMode = some m → OpenOn d.file.object fx d m

section
variable {mounted : Volume → Bool} {fx fx' : FileX} {d d' other : FileDescriptor} {s s' : Handle}
  {object : ObjectId} {m mode : OpenMode}

theorem Own.sized (h : Own fx d) (hd : d.openMode ≠ none) : Sized fx d.file := by
  obtain ⟨m, hm⟩ := Option.ne_none_iff_exists'.mp hd
  exact ⟨(h m hm).size, (h m hm).offset⟩

theorem Own.closed (hd : d.openMode = none) : Own fx d := fun _ hm =>
  absurd (hd.symm.trans hm) (by simp)

theorem Own.writer (h : Own fx d) (hd : d.openMode ≠ none) (hmode : d.file.mode = .write) :
    OpenOn d.file.object fx d .write := by
  obtain ⟨m, hm⟩ := Option.ne_none_iff_exists'.mp hd
  have hon := h m hm
  obtain rfl := hon.sameMode.symm.trans hmode
  exact hon

theorem openOn_readers (h : OpenOn object fx d m) (ho : OpenOn object fx other mode)
    (hne : d.file.handle ≠ other.file.handle) : m = .read ∧ mode = .read := by
  obtain ⟨r, hr, hh, hobj, rfl⟩ := ho.record
  exact h.others r hr hobj (by rw [hh]; exact hne.symm)

theorem closedOn_put (h : ClosedOn object fx) (hw : OpenOn d.file.object fx d .write)
    (content : List UInt8) :
    ClosedOn object { fx with content := Function.update fx.content d.file.object content } := by
  obtain ⟨r, hr, _, ho, hm⟩ := hw.record
  by_cases heq : object = d.file.object
  · exact Or.inr ⟨r, hr, ho.trans heq.symm, hm⟩
  · rcases h with hsize | hwriter
    · exact Or.inl (by simpa [heq] using hsize)
    · exact Or.inr hwriter

theorem closedOn_close (h : ClosedOn object fx) (hreg : Registry fx)
    (hon : OpenOn d.file.object fx d m) : ClosedOn object (fx.closed d.file) := by
  obtain ⟨r, hr, hh, ho, hm⟩ := hon.record
  by_cases hwrite : object = d.file.object ∧ m = .write
  · obtain ⟨rfl, rfl⟩ := hwrite
    left
    simp [FileX.closed, hon.sameMode, hon.size]
  · rcases h with hsize | ⟨w, hw, hwo, hwm⟩
    · left
      simp only [FileX.closed, hon.sameMode]
      split
      · rename_i hmode
        rw [Function.update_of_ne fun heq => hwrite ⟨heq, hmode⟩]
        exact hsize
      · exact hsize
    · right
      refine ⟨w, ?_, hwo, hwm⟩
      have : w.handle ≠ d.file.handle := by
        intro heq
        obtain rfl := hreg.unique w hw r hr (heq.trans hh.symm)
        exact hwrite ⟨hwo.symm.trans ho, hm.symm.trans hwm⟩
      simp [FileX.closed, hw, this]

theorem handleStep_registry (h : HandleStep mounted s s') (hreg : Registry s.1)
    (hown : Own s.1 s.2) : Registry s'.1 ∧ Own s'.1 s'.2 := by
  cases h with
  | adjust position offset within =>
    refine ⟨hreg, fun m hm => ?_⟩
    have hon := hown m hm
    exact ⟨rfl, hon.sameMode, hon.size, within ⟨hon.size, hon.offset⟩, hon.record, hon.others,
      hon.entry⟩
  | put isOpen writer content offset size sized =>
    have hw := hown.writer isOpen writer
    obtain ⟨hoff, hsize⟩ := sized (hown.sized isOpen)
    refine ⟨⟨hreg.objects, hreg.counted, hreg.unique, fun x => closedOn_put (hreg.sizes x) hw content⟩,
      fun m hm => ?_⟩
    have hon := hown m hm
    obtain rfl : m = .write := hon.sameMode.symm.trans writer
    exact ⟨rfl, writer, by simp [hsize], hoff, hon.record, hon.others, by simp⟩
  | @close fx d x fault isOpen =>
    obtain ⟨m, hm⟩ := Option.ne_none_iff_exists'.mp isOpen
    have hon := hown m hm
    refine ⟨?_, Own.closed rfl⟩
    rcases fxFileClose_cases x fault fx d.file with hclose | hclose <;> rw [hclose]
    · exact hreg
    · have hkept : ∀ r ∈ (fx.closed d.file).opened, r ∈ fx.opened := fun r hr =>
        List.mem_of_mem_filter hr
      exact ⟨hreg.objects, fun r hr => hreg.counted r (hkept r hr),
        fun r hr w hw => hreg.unique r (hkept r hr) w (hkept w hw),
        fun x => closedOn_close (hreg.sizes x) hreg hon⟩
  | forget closed => exact ⟨hreg, Own.closed closed⟩
  | @reopen fx d r mode n closed resolved entry isFile free =>
    have hfree := conflicts_false free
    have hsize := (hreg.sizes n.object).size hfree
    refine ⟨⟨hreg.objects, fun w hw => ?_, fun w hw u hu heq => ?_, fun x => ?_⟩, fun m hm => ?_⟩
    · rcases List.mem_cons.mp hw with rfl | hw
      · exact ⟨Nat.lt_succ_self _, hreg.objects _ _ _ entry⟩
      · exact ⟨Nat.lt_succ_of_lt (hreg.counted w hw).1, (hreg.counted w hw).2⟩
    · rcases List.mem_cons.mp hw with rfl | hw <;> rcases List.mem_cons.mp hu with rfl | hu
      · rfl
      · exact absurd heq.symm (hreg.counted u hu).1.ne
      · exact absurd heq (hreg.counted w hw).1.ne
      · exact hreg.unique w hw u hu heq
    · exact (hreg.sizes x).imp_right fun ⟨w, hw, hwx⟩ => ⟨w, List.mem_cons_of_mem _ hw, hwx⟩
    · obtain rfl : mode = m := Option.some.inj hm
      refine ⟨rfl, rfl, hsize, Nat.zero_le _, ⟨_, List.mem_cons_self, rfl, rfl, rfl⟩,
        fun w hw ho hne => ?_, fun _ => hsize⟩
      rcases List.mem_cons.mp hw with rfl | hw
      · exact absurd rfl hne
      · exact hfree w hw ho

theorem handleStep_other (h : HandleStep mounted s s') (hreg : Registry s.1)
    (hown : Own s.1 s.2) (ho : OpenOn object s.1 other m)
    (hne : s.2.openMode ≠ none → s.2.file.handle ≠ other.file.handle) :
    OpenOn object s'.1 other m ∧
      (s'.2.openMode ≠ none → s'.2.file.handle ≠ other.file.handle) := by
  cases h with
  | adjust _ _ _ => exact ⟨ho, hne⟩
  | @put fx d isOpen writer content offset size sized =>
    have hw := hown.writer isOpen writer
    -- a writer is alone, so the other file keeps its content
    have hother : object ≠ d.file.object := by
      rintro rfl
      exact absurd (openOn_readers hw ho (hne isOpen)).1 (by simp)
    refine ⟨⟨ho.sameObject, ho.sameMode, ?_, ho.offset, ho.record, ho.others, ?_⟩, hne⟩
    · simpa [hother] using ho.size
    · simpa [hother] using ho.entry
  | @close fx d x fault isOpen =>
    refine ⟨?_, by simp⟩
    rcases fxFileClose_cases x fault fx d.file with hclose | hclose <;> rw [hclose]
    · exact ho
    · obtain ⟨mode, hmode⟩ := Option.ne_none_iff_exists'.mp isOpen
      have hon := hown mode hmode
      obtain ⟨r, hr, hh, hobj, hrm⟩ := ho.record
      refine ⟨ho.sameObject, ho.sameMode, ho.size, ho.offset, ⟨r, ?_, hh, hobj, hrm⟩,
        fun w hw => ho.others w (List.mem_of_mem_filter hw), fun hread => ?_⟩
      · have : r.handle ≠ d.file.handle := by
          rw [hh]
          exact (hne isOpen).symm
        simp [FileX.closed, hr, this]
      · simp only [FileX.closed]
        split
        · rename_i hwrite
          rw [Function.update_of_ne]
          · exact ho.entry hread
          · rintro rfl
            exact absurd (openOn_readers (hown.writer isOpen hwrite) ho (hne isOpen)).1 (by simp)
        · exact ho.entry hread
  | forget closed => exact ⟨ho, fun hd => absurd closed hd⟩
  | @reopen fx d r mode n closed resolved entry isFile free =>
    have hfree := conflicts_false free
    obtain ⟨w, hw, hh, hobj, hwm⟩ := ho.record
    have hlt := (hreg.counted w hw).1
    rw [hh] at hlt
    refine ⟨⟨ho.sameObject, ho.sameMode, ho.size, ho.offset,
      ⟨w, List.mem_cons_of_mem _ hw, hh, hobj, hwm⟩, fun u hu huo hune => ?_, ho.entry⟩,
      fun _ => hlt.ne'⟩
    rcases List.mem_cons.mp hu with rfl | hu
    · obtain ⟨hmode, hread⟩ := hfree w hw (hobj.trans huo.symm)
      exact ⟨hwm.symm.trans hread, hmode⟩
    · exact ho.others u hu huo hune

theorem steps_registry (h : Steps mounted s s') (hreg : Registry s.1) (hown : Own s.1 s.2) :
    Registry s'.1 ∧ Own s'.1 s'.2 :=
  Runs.preserved (P := fun s => Registry s.1 ∧ Own s.1 s.2)
    (fun _ _ hs h => handleStep_registry h hs.1 hs.2) h ⟨hreg, hown⟩

theorem steps_other (h : Steps mounted s s') (hreg : Registry s.1) (hown : Own s.1 s.2)
    (ho : OpenOn object s.1 other m)
    (hne : s.2.openMode ≠ none → s.2.file.handle ≠ other.file.handle) :
    OpenOn object s'.1 other m ∧
      (s'.2.openMode ≠ none → s'.2.file.handle ≠ other.file.handle) := by
  induction h with
  | refl => exact ⟨ho, hne⟩
  | tail hs hlast ih =>
    obtain ⟨hreg', hown'⟩ := steps_registry hs hreg hown
    exact handleStep_other hlast hreg' hown' ih.1 ih.2

end

structure Consistent (fs : FileSystem) : Prop where
  registry : Registry fs.fx
  own : ∀ i, Own fs.fx (fs.descriptors i)
  free : ∀ i, (fs.descriptors i).allocated = false → (fs.descriptors i).openMode = none
  apart : ∀ i j, i ≠ j → (fs.descriptors i).openMode ≠ none → (fs.descriptors j).openMode ≠ none →
    (fs.descriptors i).file.handle ≠ (fs.descriptors j).file.handle

/-- What may change below the handles: a fresh object appears, or an entry's size is brought
up to date. -/
structure Settled (fx fx' : FileX) : Prop where
  objects : ∀ v k n, (fx'.media v).find? k = some n → n.object < fx'.nextObject
  opened : fx'.opened = fx.opened
  nextHandle : fx'.nextHandle = fx.nextHandle
  nextObject : fx.nextObject ≤ fx'.nextObject
  sizes : ∀ x, fx'.content x = fx.content x ∧
      (fx'.entrySize x = fx.entrySize x ∨ fx'.entrySize x = (fx.content x).length) ∨
    fx.nextObject ≤ x ∧ fx'.entrySize x = (fx'.content x).length

section
variable {o : Outcomes} {fs fs' : FileSystem} {fx : FileX} {d : FileDescriptor}
  {i : Fin maximumOpenFiles}

theorem Settled.registry (h : Settled fs.fx fx) (hreg : Registry fs.fx) : Registry fx := by
  refine ⟨h.objects, fun r hr => ?_, ?_, fun x => ?_⟩
  · rw [h.opened] at hr
    rw [h.nextHandle]
    exact ⟨(hreg.counted r hr).1, (hreg.counted r hr).2.trans_le h.nextObject⟩
  · rw [h.opened]
    exact hreg.unique
  · rcases h.sizes x with ⟨hc, hsame | hsize⟩ | ⟨_, hsize⟩
    · refine (hreg.sizes x).imp (fun hold => ?_) fun hw => ?_
      · rw [hsame, hold, hc]
      · rw [h.opened]
        exact hw
    · exact Or.inl (by rw [hsize, hc])
    · exact Or.inl hsize

theorem Settled.own (h : Settled fs.fx fx) (hreg : Registry fs.fx) {path : CStr}
    (hown : Own fs.fx d) : Own fx { d with path := path } := by
  intro m hm
  have hon := hown m hm
  obtain ⟨r, hr, _, ho, _⟩ := hon.record
  have hlt := (hreg.counted r hr).2
  rw [ho] at hlt
  rcases h.sizes d.file.object with ⟨hc, hentry⟩ | ⟨hge, _⟩
  · refine ⟨rfl, hon.sameMode, hon.size.trans (by rw [hc]), hon.offset, ?_, ?_, fun hread => ?_⟩
    · rw [h.opened]
      exact hon.record
    · rw [h.opened]
      exact hon.others
    · rw [hc]
      rcases hentry with hsame | hsize
      · rw [hsame, hon.entry hread]
      · exact hsize
  · exact absurd hlt (Nat.not_lt.mpr hge)

theorem Consistent.settle (h : Consistent fs) (hfx : Settled fs.fx fs'.fx)
    (hd : ∀ i, ∃ path, fs'.descriptors i = { fs.descriptors i with path := path }) :
    Consistent fs' := by
  refine ⟨hfx.registry h.registry, fun i => ?_, fun i hi => ?_, fun i j hij hi hj => ?_⟩
  · obtain ⟨path, he⟩ := hd i
    rw [he]
    exact hfx.own h.registry (h.own i)
  · obtain ⟨path, he⟩ := hd i
    rw [he] at hi ⊢
    exact h.free i hi
  · obtain ⟨_, he⟩ := hd i
    obtain ⟨_, he'⟩ := hd j
    rw [he] at hi ⊢
    rw [he'] at hj ⊢
    exact h.apart i j hij hi hj

theorem Consistent.set (h : Consistent fs) (hreg : Registry fx) (hown : Own fx d)
    (hfree : d.allocated = false → d.openMode = none)
    (hothers : ∀ j, j ≠ i → ∀ m, (fs.descriptors j).openMode = some m →
      OpenOn (fs.descriptors j).file.object fx (fs.descriptors j) m ∧
        (d.openMode ≠ none → d.file.handle ≠ (fs.descriptors j).file.handle)) :
    Consistent (fs.setDescriptor i fx d) := by
  have hother : ∀ j, j ≠ i → (fs.setDescriptor i fx d).descriptors j = fs.descriptors j :=
    fun j => setDescriptor_other fs fx d
  have hapart : ∀ j, j ≠ i → d.openMode ≠ none → (fs.descriptors j).openMode ≠ none →
      d.file.handle ≠ (fs.descriptors j).file.handle := by
    intro j hji hd hj
    obtain ⟨m, hm⟩ := Option.ne_none_iff_exists'.mp hj
    exact (hothers j hji m hm).2 hd
  refine ⟨hreg, fun j => ?_, fun j => ?_, fun j l hjl hj hl => ?_⟩
  · by_cases hji : j = i
    · rw [hji, setDescriptor_self]
      exact hown
    · rw [hother j hji]
      exact fun m hm => (hothers j hji m hm).1
  · by_cases hji : j = i
    · rw [hji, setDescriptor_self]
      exact hfree
    · rw [hother j hji]
      exact h.free j
  · by_cases hji : j = i
    · subst hji
      rw [hother l (Ne.symm hjl)] at hl ⊢
      rw [setDescriptor_self] at hj ⊢
      exact hapart l (Ne.symm hjl) hj hl
    · rw [hother j hji] at hj ⊢
      by_cases hli : l = i
      · subst hli
        rw [setDescriptor_self] at hl ⊢
        exact (hapart j hji hl hj).symm
      · rw [hother l hli] at hl ⊢
        exact h.apart j l hjl hj hl

theorem Consistent.touch (h : Consistent fs) (halloc : (fs.descriptors i).allocated = true)
    (hs : Steps fs.mounted (fs.fx, fs.descriptors i) (fx, d)) :
    Consistent (fs.setDescriptor i fx d) := by
  obtain ⟨hreg, hown⟩ := steps_registry hs h.registry (h.own i)
  obtain ⟨_, hsame⟩ := hs.frame
  refine h.set hreg hown (fun hd => ?_) fun j hji m hm => ?_
  · rw [hsame.allocated] at hd
    exact absurd (halloc.symm.trans hd) (by simp)
  · exact steps_other hs h.registry (h.own i) (h.own j m hm) fun hi =>
      h.apart i j (Ne.symm hji) hi (by simp [hm])

theorem Consistent.drop (h : Consistent fs) (i : Fin maximumOpenFiles) :
    Consistent (fs.setDescriptor i fs.fx {}) :=
  h.set h.registry (Own.closed rfl) (fun _ => rfl) fun j _ m hm => ⟨h.own j m hm, by simp⟩

theorem Consistent.addEntry (h : Consistent fs) {v : Volume} {k : List Name} (directory : Bool)
    (hf : (fs.fx.media v).Free k) :
    Consistent { fs with fx := fs.fx.addEntry v k directory hf } := by
  refine h.settle ⟨fun w c n hn => ?_, rfl, rfl, Nat.le_succ _, fun x => ?_⟩ fun i => ⟨_, rfl⟩
  · by_cases hw : w = v
    · subst hw
      simp only [FileX.addEntry, setMedia_media_self] at hn
      by_cases hc : c = k
      · subst hc
        rw [find?_insert_self] at hn
        cases hn
        exact Nat.lt_succ_self _
      · rw [find?_insert_ne _ _ hf hc] at hn
        exact (h.registry.objects w c n hn).trans (Nat.lt_succ_self _)
    · simp only [FileX.addEntry, setMedia_media_ne _ _ hw] at hn
      exact (h.registry.objects w c n hn).trans (Nat.lt_succ_self _)
  · by_cases hx : x = fs.fx.nextObject
    · subst hx
      exact Or.inr ⟨le_rfl, by simp [FileX.addEntry]⟩
    · exact Or.inl (by simp [FileX.addEntry, hx])

theorem Consistent.erase (h : Consistent fs) {v : Volume} {k : List Name}
    (hl : (fs.fx.media v).Leaf k) :
    Consistent { fs with fx := fs.fx.setMedia v ((fs.fx.media v).erase k hl) } := by
  refine h.settle ⟨fun w c n hn => ?_, rfl, rfl, le_rfl, fun x => Or.inl ⟨rfl, Or.inl rfl⟩⟩
    fun i => ⟨_, rfl⟩
  by_cases hw : w = v
  · subst hw
    simp only [setMedia_media_self] at hn
    by_cases hc : c = k
    · subst hc
      simp at hn
    · rw [find?_erase_ne _ hl hc] at hn
      exact h.registry.objects w c n hn
  · simp only [setMedia_media_ne _ _ hw] at hn
    exact h.registry.objects w c n hn

theorem Consistent.rename (h : Consistent fs) (oldPath newPath : CStr) :
    Consistent (sysRename o fs oldPath newPath).1 := by
  unfold sysRename
  cases hc : renameChecks o fs oldPath newPath with
  | error e => exact h
  | ok p =>
    obtain ⟨_, _, k, k', hp⟩ := renameChecks_ok hc
    have he := renameCommit_effect (o := o) hp
    obtain ⟨horigin, hopened, hhandle, hnext, hcontent⟩ := he.sameObjects
    have hobjects : ∀ v c n, ((renameCommit o fs p).1.fx.media v).find? c = some n →
        n.object < (renameCommit o fs p).1.fx.nextObject := by
      intro v c n hn
      obtain ⟨q, hq⟩ := horigin v c n hn
      rw [hnext]
      exact h.registry.objects v q n hq
    have hsettled : (∀ x, (renameCommit o fs p).1.fx.entrySize x = fs.fx.entrySize x ∨
        (renameCommit o fs p).1.fx.entrySize x = (fs.fx.content x).length) →
        Settled fs.fx (renameCommit o fs p).1.fx := fun hentry =>
      ⟨hobjects, hopened, hhandle, hnext.ge, fun x =>
        Or.inl ⟨congrFun hcontent x, hentry x⟩⟩
    rcases he.survives hp with ⟨t, hch, _⟩ | ⟨fs₁, t, heq, hch, _⟩
    · exact h.settle (hsettled hch.entrySize) fun i => ⟨_, by rw [hch.descriptors]⟩
    · refine h.settle (hsettled fun x => ?_) fun i => ?_
      · rw [heq]
        exact hch.entrySize x
      · simp only [heq, migratePaths, hch.descriptors]
        split <;> exact ⟨_, rfl⟩

theorem Consistent.open (h : Consistent fs) (path : CStr) (flags : OpenFlags) :
    Consistent (sysOpen o fs path flags).1 := by
  rcases sysOpen_cases o fs path flags with
    ⟨heq, _⟩ | ⟨p, v, k, slot, fx₀, object, info, fx, d, _, hslot, hent, hs, hend⟩
  · rwa [heq]
  · have h₀ : Consistent { fs with fx := fx₀ } := by
      cases hent with
      | existing _ _ => exact h
      | created hf => exact h.addEntry false hf
    have h₁ : Consistent (({ fs with fx := fx₀ } : FileSystem).setDescriptor slot fx₀
        (newDescriptor flags p info)) :=
      h₀.set h₀.registry (Own.closed rfl) (fun _ => rfl) fun j _ m hm =>
        ⟨h₀.own j m hm, fun hd => absurd rfl hd⟩
    have hopened : Steps fs.mounted (fx₀, (({ fs with fx := fx₀ } : FileSystem).setDescriptor slot
        fx₀ (newDescriptor flags p info)).descriptors slot) (fx, d) := by
      rwa [setDescriptor_self]
    have h₂ := h₁.touch (by rw [setDescriptor_self]; rfl) hopened
    rw [setDescriptor_setDescriptor] at h₂
    rcases hend with ⟨e, herr⟩ | ⟨_, _, hok⟩
    · rw [herr]
      have := h₂.drop slot
      rwa [setDescriptor_setDescriptor] at this
    · rw [hok]
      exact h₂

theorem allocated_of_descriptor {file : Int} (hi : descriptorFor fs file = some i) :
    (fs.descriptors i).allocated = true := (Option.filter_eq_some_iff.mp hi).2

theorem Consistent.close (h : Consistent fs) (file : Int) :
    Consistent (sysClose o fs file).1 := by
  rcases sysClose_cases o fs file with ⟨_, heq⟩ | ⟨i, fx, d, hi, hs, _, heq⟩
  · rwa [heq]
  · have hdrop := (h.touch (allocated_of_descriptor hi) hs).drop i
    rw [setDescriptor_fx, setDescriptor_setDescriptor] at hdrop
    rwa [heq]

theorem Consistent.touched {file : Int} (h : Consistent fs)
    (hbad : descriptorFor fs file = none → fs' = fs)
    (hgood : ∀ i, descriptorFor fs file = some i → Touched fs fs' i) : Consistent fs' := by
  cases hi : descriptorFor fs file with
  | none =>
    rw [hbad hi]
    exact h
  | some i =>
    rcases hgood i hi with rfl | ⟨fx, d, rfl, hs⟩
    · exact h
    · exact h.touch (allocated_of_descriptor hi) hs

theorem Consistent.exec (h : Consistent fs) (call : SysCall) : Consistent (exec o fs call).1 := by
  cases call with
  | «open» path flags => exact h.open path flags
  | close file => exact h.close file
  | read file length =>
    exact h.touched (sysRead_bad length) fun i => sysRead_touched length
  | write file buffer =>
    exact h.touched (sysWrite_bad buffer) fun i => sysWrite_touched buffer
  | lseek file offset origin =>
    exact h.touched (sysLseek_bad offset origin) fun i => sysLseek_touched offset origin
  | fstat file => exact h
  | ftruncate file length =>
    exact h.touched (sysFtruncate_bad length) fun i => sysFtruncate_touched length
  | unlink path =>
    rcases sysUnlink_cases o fs path with heq | ⟨_, _, _, hl, _, _, _, _, heq⟩ <;>
      simp only [FileNamespace.exec, answered, heq]
    · exact h
    · exact h.erase hl
  | rename oldPath newPath => exact h.rename oldPath newPath
  | mkdir path =>
    rcases sysMkdir_cases o fs path with heq | ⟨_, _, _, hf, _, heq⟩ <;>
      simp only [FileNamespace.exec, answered, heq]
    · exact h
    · exact h.addEntry true hf
  | rmdir path =>
    rcases sysRmdir_cases o fs path with heq | ⟨_, _, _, hl, _, _, _, heq⟩ <;>
      simp only [FileNamespace.exec, answered, heq]
    · exact h
    · exact h.erase hl
  | chdir path =>
    rcases sysChdir_cases o fs path with heq | ⟨_, _, _, _, _, heq⟩ <;>
      simp only [FileNamespace.exec, answered, heq]
    · exact h
    · exact ⟨h.registry, h.own, h.free, h.apart⟩

theorem consistent_of_initial (h : Initial fs) (hsizes : EntrySizes fs.fx) : Consistent fs := by
  refine ⟨⟨h.objects, by simp [h.opened], by simp [h.opened], hsizes⟩, fun i => Own.closed ?_,
    fun i _ => ?_, fun i j _ hi => ?_⟩
  · rw [h.descriptors i]
  · rw [h.descriptors i]
  · rw [h.descriptors i] at hi
    exact absurd rfl hi

theorem consistent_run (h : Initial fs) (hsizes : EntrySizes fs.fx)
    (calls : List (Outcomes × SysCall)) : Consistent (Runs.run stepCall fs calls) :=
  Runs.invariant_always (P := Consistent) (fun _ c hs => hs.exec c.2)
    (consistent_of_initial h hsizes) calls

end

end SimPLCity.OpenHandles
