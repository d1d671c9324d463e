import SimPLCity.CallEffects

/-! Which file object a descriptor stands for. A ghost binding records the object on
which each descriptor was opened; the descriptor itself knows only a path, and reopens
it at every switch between reading and writing. The binding and the path stay together
in every run in which no unlink removes the entry of a descriptor that a failed switch
has left without a handle. -/

namespace SimPLCity.DescriptorIdentity
open PathText FileXVolume PathTree FileDescriptors FileNamespace LocatedPaths NamespaceEffects
  HandleSteps CallEffects

abbrev Slot := Fin maximumOpenFiles
abbrev Binding := Slot → Option ObjectId

/-- The open handle of `d`, if there is one, is on `object` and FileX knows of it. -/
def Attached (fx : FileX) (d : FileDescriptor) (object : ObjectId) : Prop :=
  d.openMode ≠ none → d.file.object = object ∧ d.file.handle < fx.nextHandle ∧
    ∃ r ∈ fx.opened, r.handle = d.file.handle ∧ r.object = object

/-- `handle` is open on `object` and is not the handle of `d`. -/
def Apart (fx : FileX) (d : FileDescriptor) (handle : Nat) (object : ObjectId) : Prop :=
  handle < fx.nextHandle ∧ (d.openMode ≠ none → d.file.handle ≠ handle) ∧
    ∃ r ∈ fx.opened, r.handle = handle ∧ r.object = object

/-- Every path of `d` that resolves leads to `object`. -/
def LeadsTo (mounted : Volume → Bool) (fx : FileX) (d : FileDescriptor) (object : ObjectId) :
    Prop :=
  ∀ r n, resolveNormalizedPath mounted d.path = .ok r → fx.find? r.volume r.localPath = some n →
    n.object = object

section
variable {mounted : Volume → Bool} {s s' : Handle} {object other : ObjectId} {handle : Nat}

theorem handleStep_apart (h : HandleStep mounted s s') (ha : Apart s.1 s.2 handle other) :
    Apart s'.1 s'.2 handle other := by
  obtain ⟨hlt, hne, r, hr, hh, ho⟩ := ha
  cases h with
  | adjust _ _ _ => exact ⟨hlt, hne, r, hr, hh, ho⟩
  | put _ _ _ _ _ _ => exact ⟨hlt, hne, r, hr, hh, ho⟩
  | @close fx d x fault isOpen =>
    rcases fxFileClose_cases x fault fx d.file with hclose | hclose <;> rw [hclose]
    · exact ⟨hlt, by simp, r, hr, hh, ho⟩
    · refine ⟨hlt, by simp, r, ?_, hh, ho⟩
      have : r.handle ≠ d.file.handle := by
        rw [hh]
        exact (hne isOpen).symm
      simp [FileX.closed, hr, this]
  | forget closed => exact ⟨hlt, fun h => absurd closed h, r, hr, hh, ho⟩
  | reopen _ _ _ _ _ =>
    exact ⟨Nat.lt_succ_of_lt hlt, fun _ => Nat.ne_of_gt hlt, r, List.mem_cons_of_mem _ hr, hh, ho⟩

theorem handleStep_attached (h : HandleStep mounted s s') (hl : LeadsTo mounted s.1 s.2 object)
    (ha : Attached s.1 s.2 object) : Attached s'.1 s'.2 object := by
  cases h with
  | adjust _ _ _ => exact ha
  | put _ _ _ _ _ _ => exact ha
  | close _ _ _ => exact fun h => absurd rfl h
  | forget closed => exact fun h => absurd closed h
  | reopen _ resolved entry _ _ =>
    have hobj := hl _ _ resolved entry
    exact fun _ => ⟨hobj, Nat.lt_succ_self _, _, List.mem_cons_self, rfl, hobj⟩

theorem handleStep_leadsTo (h : HandleStep mounted s s') (hl : LeadsTo mounted s.1 s.2 object) :
    LeadsTo mounted s'.1 s'.2 object := by
  obtain ⟨⟨hm, _⟩, hp, _⟩ := h.frame
  intro r n hr hn
  rw [hp] at hr
  rw [FileX.find?, hm] at hn
  exact hl r n hr hn

theorem handleStep_content (h : HandleStep mounted s s') (ha : Attached s.1 s.2 object)
    (hne : other ≠ object) : s'.1.content other = s.1.content other := by
  cases h with
  | put isOpen _ content _ _ _ =>
    obtain ⟨rfl, _⟩ := ha isOpen
    exact Function.update_of_ne hne _ _
  | close x fault _ =>
    rcases fxFileClose_cases x fault _ _ with hclose | hclose <;> rw [hclose]
    rfl
  | _ => rfl

/-- What the steps of one descriptor preserve: its own object, every other open handle and
the contents of every other object. -/
theorem steps_attached (h : Steps mounted s s') (hl : LeadsTo mounted s.1 s.2 object)
    (ha : Attached s.1 s.2 object) :
    Attached s'.1 s'.2 object ∧ ∀ other, other ≠ object →
      s'.1.content other = s.1.content other := by
  have hrun : LeadsTo mounted s'.1 s'.2 object ∧ Attached s'.1 s'.2 object ∧
      ∀ other, other ≠ object → s'.1.content other = s.1.content other := by
    induction h with
    | refl => exact ⟨hl, ha, fun _ _ => rfl⟩
    | tail _ hlast ih =>
      obtain ⟨hl', ha', hc⟩ := ih
      exact ⟨handleStep_leadsTo hlast hl', handleStep_attached hlast hl' ha', fun other hne =>
        (handleStep_content hlast ha' hne).trans (hc other hne)⟩
  exact hrun.2

theorem steps_apart (h : Steps mounted s s') (ha : Apart s.1 s.2 handle other) :
    Apart s'.1 s'.2 handle other :=
  Runs.preserved (P := fun s => Apart s.1 s.2 handle other) (fun _ _ ha h => handleStep_apart h ha) h ha

end

/-- The path names the file entry of `object`. -/
def FileAt (fs : FileSystem) (path : CStr) (object : ObjectId) : Prop :=
  ∃ v k, Located fs.mounted path v k ∧ (fs.fx.media v).find? k = some ⟨object, false⟩

structure Identity (fs : FileSystem) (b : Binding) : Prop where
  bound : ∀ i, (fs.descriptors i).allocated = (b i).isSome
  closed : ∀ i, b i = none → (fs.descriptors i).openMode = none
  fits : ∀ i object, b i = some object → (fs.descriptors i).path.length < maximumPath
  path : ∀ i object, b i = some object → FileAt fs (fs.descriptors i).path object
  counted : ∀ i object, b i = some object → object < fs.fx.nextObject
  attached : ∀ i object, b i = some object → Attached fs.fx (fs.descriptors i) object
  apart : ∀ i j, i ≠ j → (fs.descriptors i).openMode ≠ none → (fs.descriptors j).openMode ≠ none →
    (fs.descriptors i).file.handle ≠ (fs.descriptors j).file.handle
  objects : ∀ v k n, (fs.fx.media v).find? k = some n → n.object < fs.fx.nextObject

section
variable {fs fs' : FileSystem} {b : Binding} {i j : Slot} {object : ObjectId}

theorem Identity.bound_of_open (h : Identity fs b) (hi : (fs.descriptors i).openMode ≠ none) :
    ∃ object, b i = some object :=
  Option.ne_none_iff_exists'.mp fun hb => hi (h.closed i hb)

theorem Identity.bound_of_descriptor {file : Int} (h : Identity fs b)
    (hi : descriptorFor fs file = some i) : ∃ object, b i = some object :=
  Option.isSome_iff_exists.mp ((h.bound i).symm.trans (Option.filter_eq_some_iff.mp hi).2)

theorem FileAt.leadsTo {fx : FileX} {d : FileDescriptor} (h : FileAt fs d.path object)
    (hm : fx.media = fs.fx.media) : LeadsTo fs.mounted fx d object := by
  obtain ⟨v, k, hl, hn⟩ := h
  intro r n hr hfind
  obtain ⟨r', hr', hres⟩ := resolveNormalizedPath_located hl
  obtain rfl : r = r' := Except.ok.inj (hr.symm.trans hr')
  rw [FileX.find?, hm, hres.volume, hres.key, hn] at hfind
  cases hfind
  rfl

theorem FileAt.of_entries {path : CStr} (h : FileAt fs path object)
    (hm : fs'.mounted = fs.mounted)
    (hkept : ∀ v k n, Located fs.mounted path v k → (fs.fx.media v).find? k = some n →
      (fs'.fx.media v).find? k = some n) : FileAt fs' path object := by
  obtain ⟨v, k, hl, hn⟩ := h
  exact ⟨v, k, by rw [hm]; exact hl, hkept v k _ hl hn⟩

theorem Identity.touch {fx : FileX} {d : FileDescriptor} (h : Identity fs b)
    (hb : b i = some object) (hs : Steps fs.mounted (fs.fx, fs.descriptors i) (fx, d)) :
    Identity (fs.setDescriptor i fx d) b ∧
      ∀ other, other ≠ object → fx.content other = fs.fx.content other := by
  obtain ⟨⟨hmedia, hnext⟩, hpath, halloc, _⟩ := hs.frame
  simp only at hmedia hnext hpath halloc
  have hl : LeadsTo fs.mounted fs.fx (fs.descriptors i) object := (h.path i object hb).leadsTo rfl
  obtain ⟨hatt, hcontent⟩ := steps_attached hs hl (h.attached i object hb)
  have hothers : ∀ j, j ≠ i → ∀ x, b j = some x → (fs.descriptors j).openMode ≠ none →
      Apart fx d (fs.descriptors j).file.handle x := by
    intro j hj x hx hopen
    obtain ⟨rfl, hlt, hrec⟩ := h.attached j x hx hopen
    exact steps_apart hs ⟨hlt, fun hi => h.apart i j (Ne.symm hj) hi hopen, hrec⟩
  have hother : ∀ j, j ≠ i → (fs.setDescriptor i fx d).descriptors j = fs.descriptors j :=
    fun j => setDescriptor_other fs fx d
  have hfile : ∀ path x, FileAt fs path x → FileAt (fs.setDescriptor i fx d) path x :=
    fun path x hx => hx.of_entries rfl fun v k n _ hn => by
      rw [setDescriptor_fx, hmedia]
      exact hn
  refine ⟨⟨fun j => ?_, fun j hj => ?_, fun j x hx => ?_, fun j x hx => ?_, fun j x hx => ?_,
    fun j x hx => ?_, fun j l hjl hj hl => ?_, fun v k n hn => ?_⟩, hcontent⟩
  · by_cases hji : j = i
    · rw [hji, setDescriptor_self, halloc, h.bound]
    · rw [hother j hji, h.bound]
  · have hji : j ≠ i := by
      rintro rfl
      simp [hb] at hj
    rw [hother j hji]
    exact h.closed j hj
  · by_cases hji : j = i
    · rw [hji, setDescriptor_self, hpath]
      exact h.fits i object hb
    · rw [hother j hji]
      exact h.fits j x hx
  · by_cases hji : j = i
    · subst hji
      rw [setDescriptor_self, hpath]
      exact hfile _ _ (h.path j x hx)
    · rw [hother j hji]
      exact hfile _ _ (h.path j x hx)
  · rw [setDescriptor_fx, hnext]
    exact h.counted j x hx
  · by_cases hji : j = i
    · subst hji
      obtain rfl : object = x := by simpa [hb] using hx
      rw [setDescriptor_self]
      exact hatt
    · rw [hother j hji]
      intro hopen
      obtain ⟨hlt, _, hrec⟩ := hothers j hji x hx hopen
      exact ⟨(h.attached j x hx hopen).1, hlt, hrec⟩
  · have hapart : ∀ j, j ≠ i → ((fs.setDescriptor i fx d).descriptors j).openMode ≠ none →
        d.openMode ≠ none → d.file.handle ≠ (fs.descriptors j).file.handle := by
      intro j hji hopen hd
      rw [hother j hji] at hopen
      obtain ⟨x, hx⟩ := h.bound_of_open hopen
      exact (hothers j hji x hx hopen).2.1 hd
    by_cases hji : j = i
    · subst hji
      have hli : l ≠ j := Ne.symm hjl
      rw [setDescriptor_self] at hj ⊢
      rw [hother l hli]
      exact hapart l hli hl hj
    · by_cases hli : l = i
      · subst hli
        rw [setDescriptor_self] at hl ⊢
        rw [hother j hji]
        exact (hapart j hji hj hl).symm
      · rw [hother j hji] at hj ⊢
        rw [hother l hli] at hl ⊢
        exact h.apart j l hjl hj hl
  · rw [setDescriptor_fx, hmedia] at hn
    rw [setDescriptor_fx, hnext]
    exact h.objects v k n hn

theorem Identity.of_paths (h : Identity fs b) (hopened : fs'.fx.opened = fs.fx.opened)
    (hhandle : fs'.fx.nextHandle = fs.fx.nextHandle) (hnext : fs.fx.nextObject ≤ fs'.fx.nextObject)
    (hd : ∀ i, ∃ path, fs'.descriptors i = { fs.descriptors i with path := path })
    (hpath : ∀ i object, b i = some object → (fs'.descriptors i).path.length < maximumPath ∧
      FileAt fs' (fs'.descriptors i).path object)
    (hobjects : ∀ v k n, (fs'.fx.media v).find? k = some n → n.object < fs'.fx.nextObject) :
    Identity fs' b := by
  have halloc : ∀ i, (fs'.descriptors i).allocated = (fs.descriptors i).allocated := fun i => by
    obtain ⟨path, he⟩ := hd i
    rw [he]
  have hfile : ∀ i, (fs'.descriptors i).file = (fs.descriptors i).file := fun i => by
    obtain ⟨path, he⟩ := hd i
    rw [he]
  have hmode : ∀ i, (fs'.descriptors i).openMode = (fs.descriptors i).openMode := fun i => by
    obtain ⟨path, he⟩ := hd i
    rw [he]
  refine ⟨fun i => ?_, fun i hi => ?_, fun i x hx => (hpath i x hx).1,
    fun i x hx => (hpath i x hx).2, fun i x hx => ?_, fun i x hx => ?_, fun i j hij hi hj => ?_,
    hobjects⟩
  · rw [halloc, h.bound]
  · rw [hmode, h.closed i hi]
  · exact (h.counted i x hx).trans_le hnext
  · intro hopen
    rw [hmode] at hopen
    rw [hfile, hhandle, hopened]
    exact h.attached i x hx hopen
  · rw [hmode] at hi hj
    rw [hfile, hfile]
    exact h.apart i j hij hi hj

theorem Identity.addEntry (h : Identity fs b) {v : Volume} {k : List Name} (directory : Bool)
    (hf : (fs.fx.media v).Free k) :
    Identity { fs with fx := fs.fx.addEntry v k directory hf } b := by
  have hkept : ∀ w c n, (fs.fx.media w).find? c = some n →
      ((fs.fx.addEntry v k directory hf).media w).find? c = some n := by
    intro w c n hn
    by_cases hw : w = v
    · subst hw
      simp only [FileX.addEntry, setMedia_media_self]
      exact find?_insert_of_some hf hn
    · simp only [FileX.addEntry, setMedia_media_ne _ _ hw]
      exact hn
  refine h.of_paths rfl rfl (Nat.le_succ _) (fun i => ⟨_, rfl⟩) (fun i x hx => ⟨h.fits i x hx,
    (h.path i x hx).of_entries rfl fun w c n _ => hkept w c n⟩) fun w c n hn => ?_
  by_cases hw : w = v
  · subst hw
    simp only [FileX.addEntry, setMedia_media_self] at hn
    by_cases hc : c = k
    · subst hc
      rw [find?_insert_self] at hn
      cases hn
      exact Nat.lt_succ_self _
    · rw [find?_insert_ne _ _ hf hc] at hn
      exact (h.objects w c n hn).trans (Nat.lt_succ_self _)
  · simp only [FileX.addEntry, setMedia_media_ne _ _ hw] at hn
    exact (h.objects w c n hn).trans (Nat.lt_succ_self _)

theorem Identity.erase (h : Identity fs b) {v : Volume} {k : List Name}
    (hl : (fs.fx.media v).Leaf k)
    (hne : ∀ i object, b i = some object → ¬ Located fs.mounted (fs.descriptors i).path v k) :
    Identity { fs with fx := fs.fx.setMedia v ((fs.fx.media v).erase k hl) } b := by
  refine h.of_paths rfl rfl le_rfl (fun i => ⟨_, rfl⟩) (fun i x hx => ⟨h.fits i x hx,
    (h.path i x hx).of_entries rfl fun w c n hloc hn => ?_⟩) fun w c n hn => ?_
  · by_cases hw : w = v
    · subst hw
      simp only [setMedia_media_self]
      rw [find?_erase_ne _ hl, hn]
      rintro rfl
      exact hne i x hx hloc
    · simp only [setMedia_media_ne _ _ hw]
      exact hn
  · by_cases hw : w = v
    · subst hw
      simp only [setMedia_media_self] at hn
      by_cases hc : c = k
      · subst hc
        simp at hn
      · rw [find?_erase_ne _ hl hc] at hn
        exact h.objects w c n hn
    · simp only [setMedia_media_ne _ _ hw] at hn
      exact h.objects w c n hn

theorem Identity.allocate {d : FileDescriptor} (h : Identity fs b)
    (hfree : (fs.descriptors i).allocated = false) (hd : d.allocated = true)
    (hmode : d.openMode = none) (hfits : d.path.length < maximumPath)
    (hpath : FileAt fs d.path object) :
    Identity (fs.setDescriptor i fs.fx d) (Function.update b i (some object)) := by
  have hbi : b i = none := by simpa [hfree] using h.bound i
  have hobj : object < fs.fx.nextObject := by
    obtain ⟨v, k, _, hn⟩ := hpath
    exact h.objects v k _ hn
  have hfile : ∀ path x, FileAt fs path x → FileAt (fs.setDescriptor i fs.fx d) path x :=
    fun _ _ hx => hx
  have hmodes : ∀ j, ((fs.setDescriptor i fs.fx d).descriptors j).openMode ≠ none →
      j ≠ i ∧ (fs.descriptors j).openMode ≠ none := by
    intro j hj
    have hji : j ≠ i := by
      rintro rfl
      simp [hmode] at hj
    exact ⟨hji, by rwa [setDescriptor_other _ _ _ hji] at hj⟩
  have hcases : ∀ j x, Function.update b i (some object) j = some x →
      (j = i ∧ x = object) ∨ (j ≠ i ∧ b j = some x) := by
    intro j x hx
    by_cases hji : j = i
    · subst hji
      rw [Function.update_self] at hx
      exact Or.inl ⟨rfl, (Option.some.inj hx).symm⟩
    · rw [Function.update_of_ne hji] at hx
      exact Or.inr ⟨hji, hx⟩
  refine ⟨fun j => ?_, fun j hj => ?_, fun j x hx => ?_, fun j x hx => ?_, fun j x hx => ?_,
    fun j x hx hopen => ?_, fun j l hjl hj hl => ?_, h.objects⟩
  · by_cases hji : j = i
    · subst hji
      rw [setDescriptor_self, Function.update_self, hd, Option.isSome_some]
    · rw [setDescriptor_other _ _ _ hji, Function.update_of_ne hji, h.bound]
  · by_contra hne
    obtain ⟨hji, hopen⟩ := hmodes j hne
    rw [Function.update_of_ne hji] at hj
    exact hopen (h.closed j hj)
  · rcases hcases j x hx with ⟨rfl, rfl⟩ | ⟨hji, hx⟩
    · rwa [setDescriptor_self]
    · rw [setDescriptor_other _ _ _ hji]
      exact h.fits j x hx
  · rcases hcases j x hx with ⟨rfl, rfl⟩ | ⟨hji, hx⟩
    · rw [setDescriptor_self]
      exact hfile _ _ hpath
    · rw [setDescriptor_other _ _ _ hji]
      exact hfile _ _ (h.path j x hx)
  · rcases hcases j x hx with ⟨rfl, rfl⟩ | ⟨_, hx⟩
    · exact hobj
    · exact h.counted j x hx
  · obtain ⟨hji, hopen'⟩ := hmodes j hopen
    rcases hcases j x hx with ⟨rfl, _⟩ | ⟨_, hx⟩
    · exact absurd rfl hji
    · rw [setDescriptor_other _ _ _ hji]
      exact h.attached j x hx hopen'
  · obtain ⟨hji, hj⟩ := hmodes j hj
    obtain ⟨hli, hl⟩ := hmodes l hl
    rw [setDescriptor_other _ _ _ hji, setDescriptor_other _ _ _ hli]
    exact h.apart j l hjl hj hl

theorem Identity.drop (h : Identity fs b) (i : Slot) :
    Identity (fs.setDescriptor i fs.fx {}) (Function.update b i none) := by
  have hcases : ∀ j x, Function.update b i none j = some x → j ≠ i ∧ b j = some x := by
    intro j x hx
    have hji : j ≠ i := by
      rintro rfl
      simp at hx
    exact ⟨hji, by rwa [Function.update_of_ne hji] at hx⟩
  have hmodes : ∀ j, ((fs.setDescriptor i fs.fx {}).descriptors j).openMode ≠ none →
      j ≠ i ∧ (fs.descriptors j).openMode ≠ none := by
    intro j hj
    have hji : j ≠ i := by
      rintro rfl
      simp at hj
    exact ⟨hji, by rwa [setDescriptor_other _ _ _ hji] at hj⟩
  refine ⟨fun j => ?_, fun j hj => ?_, fun j x hx => ?_, fun j x hx => ?_, fun j x hx => ?_,
    fun j x hx hopen => ?_, fun j l hjl hj hl => ?_, h.objects⟩
  · by_cases hji : j = i
    · subst hji
      rw [setDescriptor_self, Function.update_self]
      rfl
    · rw [setDescriptor_other _ _ _ hji, Function.update_of_ne hji, h.bound]
  · by_contra hne
    obtain ⟨hji, hopen⟩ := hmodes j hne
    rw [Function.update_of_ne hji] at hj
    exact hopen (h.closed j hj)
  · obtain ⟨hji, hx⟩ := hcases j x hx
    rw [setDescriptor_other _ _ _ hji]
    exact h.fits j x hx
  · obtain ⟨hji, hx⟩ := hcases j x hx
    rw [setDescriptor_other _ _ _ hji]
    exact h.path j x hx
  · exact h.counted j x (hcases j x hx).2
  · obtain ⟨hji, hx⟩ := hcases j x hx
    rw [setDescriptor_other _ _ _ hji] at hopen ⊢
    exact h.attached j x hx hopen
  · obtain ⟨hji, hj⟩ := hmodes j hj
    obtain ⟨hli, hl⟩ := hmodes l hl
    rw [setDescriptor_other _ _ _ hji, setDescriptor_other _ _ _ hli]
    exact h.apart j l hjl hj hl

variable {o : Outcomes} {p : RenamePlan} {k k' : List Name}

theorem descriptor_not_in_destination (hp : Planned fs p k k') {c : List Name}
    (halloc : (fs.descriptors i).allocated = true)
    (hl : Located fs.mounted (fs.descriptors i).path p.volume c)
    (hn : (fs.fx.media p.volume).find? c = some ⟨object, false⟩) (hr : p.replaces = true) :
    ¬ k' <+: c := by
  obtain ⟨_, hbusy, ⟨m, hm, hmd⟩, _⟩ := hp.destination hr
  simp only [destinationBusy, Bool.or_eq_false_iff, decide_eq_false_iff_not, not_exists,
    not_and] at hbusy
  intro hpre
  refine hbusy.2 i halloc ?_
  rw [pathHasPrefix_flag_iff _ hl.canonical hp.newName.canonical hp.newName.ne_root, hl.key,
    hp.newName.key]
  refine ⟨by simpa using hpre, ?_⟩
  cases hd : p.destinationIsDirectory with
  | true => exact Or.inl rfl
  | false =>
    right
    obtain ⟨s, rfl⟩ := hpre
    by_cases hs : s = []
    · simp [hs]
    · simp [find?_none_of_childless (childless_of_file hm (hmd.trans hd)) hs] at hn

theorem FileAt.migrate {t : Tree Name ObjectId} {path : CStr} (hp : Planned fs p k k')
    (hch : Changed fs fs' p.volume t) (h : FileAt fs path object)
    (hentry : ∀ c, Located fs.mounted path p.volume c →
      (fs.fx.media p.volume).find? c = some ⟨object, false⟩ →
      t.find? (rebase k k' c) = some ⟨object, false⟩) :
    FileAt (migratePaths fs' p) (migratePath path p.oldName p.newName p.sourceIsDirectory)
      object := by
  obtain ⟨v, c, hl, hn⟩ := h
  have hmig := hl.migratePath p.sourceIsDirectory hp.oldName hp.newName
  refine ⟨v, _, by rw [show (migratePaths fs' p).mounted = fs.mounted from hch.mounted]; exact hmig,
    ?_⟩
  change (fs'.fx.media v).find? _ = _
  by_cases hv : v = p.volume
  · subst hv
    rw [hch.self]
    have hre := hentry c hl hn
    by_cases hd : p.sourceIsDirectory = true ∨ c = k
    · simpa [hd] using hre
    · -- the source is another file, so the path is not below it
      rw [not_or] at hd
      obtain ⟨n, hk, hnd⟩ := hp.source
      have hout : ¬ k <+: c := by
        rintro ⟨s, rfl⟩
        have hs : s ≠ [] := by
          rintro rfl
          simp at hd
        rw [find?_none_of_childless (childless_of_file hk (by simpa [hd.1] using hnd)) hs] at hn
        cases hn
      rw [rebase_outside k' hout] at hre
      simpa [hd] using hre
  · rw [hch.other hv]
    simpa [hv] using hn

theorem Identity.rename (h : Identity fs b) (oldPath newPath : CStr) :
    Identity (sysRename o fs oldPath newPath).1 b := by
  unfold sysRename
  cases hc : renameChecks o fs oldPath newPath with
  | error e => exact h
  | ok p =>
    obtain ⟨_, _, k, k', hp⟩ := renameChecks_ok hc
    have he := renameCommit_effect (o := o) hp
    obtain ⟨horigin, hopened, hhandle, hnext, _⟩ := he.sameObjects
    have hobjects : ∀ v c n, ((renameCommit o fs p).1.fx.media v).find? c = some n →
        n.object < (renameCommit o fs p).1.fx.nextObject := by
      intro v c n hn
      obtain ⟨q, hq⟩ := horigin v c n hn
      rw [hnext]
      exact h.objects v q n hq
    have hout : ∀ i x, b i = some x → ∀ c, Located fs.mounted (fs.descriptors i).path p.volume c →
        (fs.fx.media p.volume).find? c = some ⟨x, false⟩ → p.replaces = true → ¬ k' <+: c :=
      fun i x hx c hl hn => descriptor_not_in_destination hp (by simp [h.bound, hx]) hl hn
    rcases he.survives hp with ⟨t, hch, hentry⟩ | ⟨fs₁, t, heq, hch, hentry⟩
    · refine h.of_paths hopened hhandle hnext.ge (fun i => ⟨_, by rw [hch.descriptors]⟩)
        (fun i x hx => ?_) hobjects
      simp only [hch.descriptors]
      refine ⟨h.fits i x hx, (h.path i x hx).of_entries hch.mounted fun v c n hl hn => ?_⟩
      by_cases hv : v = p.volume
      · subst hv
        obtain ⟨w, l, hl', hn'⟩ := h.path i x hx
        obtain ⟨rfl, rfl⟩ := hl.unique hl'
        rw [hn'] at hn
        rw [hch.self, hentry c _ hn' (hout i x hx c hl hn'), ← hn]
      · rwa [hch.other hv]
    · simp only [heq] at hopened hhandle hnext hobjects ⊢
      have hdesc : ∀ i, (migratePaths fs₁ p).descriptors i =
          if (fs.descriptors i).allocated then
            { fs.descriptors i with
              path := migratePath (fs.descriptors i).path p.oldName p.newName p.sourceIsDirectory }
          else fs.descriptors i := fun i => by simp [migratePaths, hch.descriptors]
      refine h.of_paths hopened hhandle hnext.ge (fun i => ?_) (fun i x hx => ?_) hobjects
      · rw [hdesc]
        split <;> exact ⟨_, rfl⟩
      · have halloc : (fs.descriptors i).allocated = true := by simp [h.bound, hx]
        rw [hdesc, if_pos halloc]
        refine ⟨?_, (h.path i x hx).migrate hp hch fun c hl hn =>
          hentry c _ hn (hout i x hx c hl hn)⟩
        have hshort := hp.short
        simp only [migrationTooLong, Bool.or_eq_false_iff, decide_eq_false_iff_not, not_exists,
          not_and, not_le] at hshort
        simp only [migratePath_length]
        exact hshort.1.1 i halloc

/-- The binding after a call: a successful open binds the object of its new handle. -/
def rebind (o : Outcomes) (fs : FileSystem) (b : Binding) : SysCall → Binding
  | .open path flags =>
    match sysOpen o fs path flags with
    | (_, .error _) => b
    | (fs', .ok n) =>
      match slotOf n with
      | some i => Function.update b i (some (fs'.descriptors i).file.object)
      | none => b
  | .close file =>
    match descriptorFor fs file with
    | some i => Function.update b i none
    | none => b
  | _ => b

theorem Identity.open (h : Identity fs b) (path : CStr) (flags : OpenFlags) :
    Identity (sysOpen o fs path flags).1 (rebind o fs b (.open path flags)) := by
  rcases sysOpen_cases o fs path flags with
    ⟨heq, e, herr⟩ | ⟨p, v, k, slot, fx₀, object, info, fx, d, hn, hslot, hent, hs, hend⟩
  · have : sysOpen o fs path flags = (fs, .error e) := Prod.ext heq herr
    simpa only [rebind, this] using h
  · have hbslot : b slot = none := by simpa [hslot] using h.bound slot
    obtain ⟨h₀, hfile⟩ : Identity { fs with fx := fx₀ } b ∧
        FileAt { fs with fx := fx₀ } p object := by
      cases hent with
      | @existing n found isFile =>
        refine ⟨h, v, k, hn.located, ?_⟩
        rw [← isFile]
        exact found
      | created hf => exact ⟨h.addEntry false hf, v, k, hn.located, by simp [FileX.addEntry]⟩
    have h₁ := h₀.allocate (d := newDescriptor flags p info) hslot rfl rfl hn.fits hfile
    obtain ⟨h₂, _⟩ := h₁.touch (d := d) (Function.update_self ..) (by simpa using hs)
    simp only [setDescriptor_setDescriptor] at h₂
    have h₂ : Identity (fs.setDescriptor slot fx d) (Function.update b slot (some object)) := h₂
    rcases hend with ⟨e, herr⟩ | ⟨hopen, _, hok⟩
    · have hdrop := h₂.drop slot
      rw [setDescriptor_fx, setDescriptor_setDescriptor, Function.update_idem,
        ← hbslot, Function.update_eq_self] at hdrop
      simpa only [rebind, herr] using hdrop
    · have hobject : d.file.object = object := by
        have hatt := h₂.attached slot object (Function.update_self ..)
        rw [setDescriptor_self] at hatt
        exact (hatt hopen).1
      simpa only [rebind, hok, slotOf_fileNumber, setDescriptor_self, hobject] using h₂

theorem Identity.close (h : Identity fs b) (file : Int) :
    Identity (sysClose o fs file).1 (rebind o fs b (.close file)) := by
  rcases sysClose_cases o fs file with ⟨hi, heq⟩ | ⟨i, fx, d, hi, hs, _, heq⟩
  · simpa only [rebind, hi, heq] using h
  · obtain ⟨object, hb⟩ := h.bound_of_descriptor hi
    have hdrop := (h.touch hb hs).1.drop i
    rw [setDescriptor_fx, setDescriptor_setDescriptor] at hdrop
    simpa only [rebind, hi, heq] using hdrop

theorem Identity.touched {file : Int} (h : Identity fs b) (hbad : descriptorFor fs file = none → fs' = fs)
    (hgood : ∀ i, descriptorFor fs file = some i → Touched fs fs' i) : Identity fs' b := by
  cases hi : descriptorFor fs file with
  | none =>
    rw [hbad hi]
    exact h
  | some i =>
    rcases hgood i hi with rfl | ⟨fx, d, rfl, hs⟩
    · exact h
    · obtain ⟨object, hb⟩ := h.bound_of_descriptor hi
      exact (h.touch hb hs).1

/-- An unlink that FileX carries out names no allocated descriptor's file. As FileX keeps
files with an open handle, such a descriptor has lost its handle in a failed switch. -/
def UnlinkSafe (o : Outcomes) (fs : FileSystem) : SysCall → Prop
  | .unlink path => ∀ p v k, Names fs path p v k → o .information = none →
      o .fileDelete = none → Deletable fs.fx v k false →
      ∀ i, (fs.descriptors i).allocated = true → ¬ pathsEqual (fs.descriptors i).path p = true
  | _ => True

theorem Identity.unlink (h : Identity fs b) (path : CStr) (hsafe : UnlinkSafe o fs (.unlink path)) :
    Identity (sysUnlink o fs path).1 b := by
  rcases sysUnlink_cases o fs path with heq | ⟨p, v, k, hl, hn, hi, hd, hdel, heq⟩ <;> rw [heq]
  · exact h
  · refine h.erase hl fun i x hx hloc => ?_
    refine hsafe p v k hn hi hd hdel i (by simp [h.bound, hx]) ?_
    rw [pathsEqual_iff hloc.canonical hn.located.canonical hn.located.ne_root, hloc.key,
      hn.located.key]

theorem Identity.rmdir (h : Identity fs b) (path : CStr) :
    Identity (sysRmdir o fs path).1 b := by
  rcases sysRmdir_cases o fs path with heq | ⟨p, v, k, hl, hn, _, ⟨n, hdir, hnd, _⟩, heq⟩ <;> rw [heq]
  · exact h
  · refine h.erase hl fun i x hx hloc => ?_
    obtain ⟨w, c, hl', hfile⟩ := h.path i x hx
    obtain ⟨rfl, rfl⟩ := hloc.unique hl'
    rw [hdir] at hfile
    cases hfile
    cases hnd

theorem Identity.mkdir (h : Identity fs b) (path : CStr) :
    Identity (sysMkdir o fs path).1 b := by
  rcases sysMkdir_cases o fs path with heq | ⟨p, v, k, hf, _, heq⟩ <;> rw [heq]
  · exact h
  · exact h.addEntry true hf

theorem Identity.chdir (h : Identity fs b) (path : CStr) :
    Identity (sysChdir o fs path).1 b := by
  rcases sysChdir_cases o fs path with heq | ⟨p, info, _, _, _, heq⟩ <;> rw [heq]
  · exact h
  · exact ⟨h.bound, h.closed, h.fits, h.path, h.counted, h.attached, h.apart, h.objects⟩

theorem Identity.exec (h : Identity fs b) (call : SysCall) (hsafe : UnlinkSafe o fs call) :
    Identity (exec o fs call).1 (rebind o fs b call) := by
  cases call with
  | «open» path flags => exact h.open path flags
  | close file => exact h.close file
  | read file length =>
    exact h.touched (sysRead_bad length) fun i => sysRead_touched length
  | write file buffer =>
    exact h.touched (sysWrite_bad buffer) fun i => sysWrite_touched buffer
  | lseek file offset origin =>
    exact h.touched (sysLseek_bad offset origin) fun i => sysLseek_touched offset origin
  | fstat file => exact h
  | ftruncate file length =>
    exact h.touched (sysFtruncate_bad length) fun i => sysFtruncate_touched length
  | unlink path => exact h.unlink path hsafe
  | rename oldPath newPath => exact h.rename oldPath newPath
  | mkdir path => exact h.mkdir path
  | rmdir path => exact h.rmdir path
  | chdir path => exact h.chdir path

theorem identity_of_initial (h : Initial fs) : Identity fs (fun _ => none) := by
  refine ⟨fun i => ?_, fun i _ => ?_, by simp, by simp, by simp, by simp, fun i j _ hi => ?_,
    h.objects⟩
  · rw [h.descriptors i]
    rfl
  · rw [h.descriptors i]
  · rw [h.descriptors i] at hi
    exact absurd rfl hi

theorem read_reaches {file length : Int} {bs : List UInt8} (h : Identity fs b)
    (hb : b i = some object) (hi : descriptorFor fs file = some i)
    (hr : (sysRead o fs file length).2 = .ok bs) :
    ∃ offset, bs = ((fs.fx.content object).drop offset).take length.toNat := by
  unfold sysRead at hr
  split at hr
  · cases hr
  · simp only [hi] at hr
    split at hr
    · cases hr
    · split at hr
      · rename_i h0
        cases hr
        exact ⟨0, by simp [h0]⟩
      · have hcontent := switchMode_content o fs.mounted fs.fx (fs.descriptors i) .read
        rcases hsw : switchMode o fs.mounted fs.fx (fs.descriptors i) .read with ⟨fx, d, _ | e⟩ <;>
          rw [hsw] at hr hcontent
        · obtain ⟨hs, hmode⟩ := switchMode_steps hsw
          obtain ⟨hatt, _⟩ := steps_attached hs ((h.path i object hb).leadsTo rfl)
            (h.attached i object hb)
          obtain ⟨hobject, _⟩ := hatt (by simp [hmode rfl])
          simp only at hr hcontent hobject
          cases hf : o .fileRead with
          | some f =>
            obtain ⟨bytes, hread⟩ := o.read_fault f fx d.file length.toNat
            cases f <;> simp [hf, hread, Fault.status] at hr
          | none =>
            rw [hf] at hr
            by_cases hend : d.file.currentFileSize ≤ d.file.currentFileOffset
            · simp [o.read_end _ _ _ hend] at hr
              exact ⟨(fs.fx.content object).length, by simp [hr]⟩
            · obtain ⟨actual, rfl, hread⟩ := o.read_file fx d.file length.toNat (not_le.mp hend)
              simp [hread] at hr
              exact ⟨d.file.currentFileOffset, by rw [← hr, hobject, hcontent]⟩
        · cases hr

theorem fstat_reaches {file : Int} {st : Stat} (h : Identity fs b) (hb : b i = some object)
    (hi : descriptorFor fs file = some i) (hr : sysFstat o fs file = .ok st) :
    ∃ size, st = fillStat (fs.descriptors i).path ⟨size, false⟩ ∧
      (size = fs.fx.entrySize object ∨
        (fs.descriptors i).openMode ≠ none ∧ size = (fs.descriptors i).file.currentFileSize) := by
  obtain ⟨v, k, hl, hn⟩ := h.path i object hb
  have hk : k ≠ [] := by
    rintro rfl
    simp at hn
  simp only [sysFstat, hi] at hr
  obtain ⟨info, hinfo, hr⟩ := bind_eq_ok hr
  obtain ⟨_, n, hn', rfl⟩ := informationUnlocked_ok hl (h.fits i object hb) hk hinfo
  obtain rfl : n = ⟨object, false⟩ := Option.some.inj (hn'.symm.trans hn)
  cases hd : (fs.descriptors i).openMode with
  | none =>
    refine ⟨fs.fx.entrySize object, ?_, Or.inl rfl⟩
    simpa [hd, entryInformation, eq_comm] using hr
  | some m =>
    refine ⟨(fs.descriptors i).file.currentFileSize, ?_, Or.inr ⟨by simp, rfl⟩⟩
    simpa [hd, entryInformation, eq_comm] using hr

/-- A data call with the given descriptor number. -/
def OnDescriptor (file : Int) : SysCall → Prop
  | .read f _ => f = file
  | .write f _ => f = file
  | .lseek f _ _ => f = file
  | .fstat f => f = file
  | .ftruncate f _ => f = file
  | _ => False

theorem other_contents {file : Int} {call : SysCall} (h : Identity fs b) (hb : b i = some object)
    (hi : descriptorFor fs file = some i) (hc : OnDescriptor file call) :
    ∀ other, other ≠ object →
      (FileNamespace.exec o fs call).1.fx.content other = fs.fx.content other := by
  have htouch : ∀ {fs'}, Touched fs fs' i → ∀ other, other ≠ object →
      fs'.fx.content other = fs.fx.content other := by
    rintro fs' (rfl | ⟨fx, d, rfl, hs⟩)
    · exact fun _ _ => rfl
    · exact (h.touch hb hs).2
  cases call <;> first
    | exact absurd hc id
    | (cases hc; exact htouch (sysRead_touched _ hi))
    | (cases hc; exact htouch (sysWrite_touched _ hi))
    | (cases hc; exact htouch (sysLseek_touched _ _ hi))
    | (cases hc; exact htouch (sysFtruncate_touched _ hi))
    | exact fun _ _ => rfl

end

def boundStep (s : FileSystem × Binding) (c : Outcomes × SysCall) : FileSystem × Binding :=
  (stepCall s.1 c, rebind c.1 s.1 s.2 c.2)

def unbound (fs : FileSystem) : FileSystem × Binding := (fs, fun _ => none)

/-- Descriptor `i` stands for `object`: its path leads there, its handle is open there, no
data call on it reads or changes another object, and every object created from now on is
another one. -/
structure StandsFor (fs : FileSystem) (i : Slot) (object : ObjectId) : Prop where
  path : FileAt fs (fs.descriptors i).path object
  handle : (fs.descriptors i).openMode ≠ none → (fs.descriptors i).file.object = object
  older : object < fs.fx.nextObject
  others : ∀ o file call, descriptorFor fs file = some i → OnDescriptor file call →
    ∀ other, other ≠ object → (exec o fs call).1.fx.content other = fs.fx.content other
  read : ∀ o file length bs, descriptorFor fs file = some i →
    (sysRead o fs file length).2 = .ok bs →
    ∃ offset, bs = ((fs.fx.content object).drop offset).take length.toNat
  fstat : ∀ o file st, descriptorFor fs file = some i → sysFstat o fs file = .ok st →
    ∃ size, st = fillStat (fs.descriptors i).path ⟨size, false⟩ ∧
      (size = fs.fx.entrySize object ∨
        (fs.descriptors i).openMode ≠ none ∧ size = (fs.descriptors i).file.currentFileSize)

theorem Identity.standsFor {fs : FileSystem} {b : Binding} {i : Slot} {object : ObjectId}
    (h : Identity fs b) (hb : b i = some object) : StandsFor fs i object where
  path := h.path i object hb
  handle hopen := (h.attached i object hb hopen).1
  older := h.counted i object hb
  others _ _ _ hi hc := other_contents h hb hi hc
  read _ _ _ _ hi hr := read_reaches h hb hi hr
  fstat _ _ _ hi hr := fstat_reaches h hb hi hr

theorem descriptor_standsFor_opened {fs : FileSystem} (h : Initial fs)
    (calls : List (Outcomes × SysCall))
    (hsafe : Runs.Along boundStep (fun s c => UnlinkSafe c.1 s.1 c.2) (unbound fs) calls) :
    let s := Runs.run boundStep (unbound fs) calls
    (∀ i, (s.1.descriptors i).allocated = true ↔ ∃ object, s.2 i = some object) ∧
      ∀ i object, s.2 i = some object → StandsFor s.1 i object := by
  intro s
  have hstep : ∀ s c, Identity s.1 s.2 → UnlinkSafe c.1 s.1 c.2 →
      Identity (boundStep s c).1 (boundStep s c).2 := fun s c hs hc => hs.exec c.2 hc
  have hinv : Identity s.1 s.2 :=
    Runs.invariant (P := fun s => Identity s.1 s.2) hstep (identity_of_initial h) hsafe
  exact ⟨fun i => by rw [hinv.bound, Option.isSome_iff_exists], fun i object => hinv.standsFor⟩

def renamedWhileOpen : List (Outcomes × SysCall) :=
  [(quiet, .open ['x'] ⟨.rdwr, true, false, false, false⟩), (quiet, .write 3 [7]),
    (quiet, .rename ['x'] ['y']), (quiet, .read 3 1)]

set_option maxRecDepth 20000 in
theorem descriptor_standsFor_opened_renamed :
    let s := Runs.run boundStep (unbound emptyVolumes) renamedWhileOpen
    (s.1.descriptors 0).path = "/flash/y".toList ∧ StandsFor s.1 0 0 :=
  ⟨by decide, (descriptor_standsFor_opened emptyVolumes_initial renamedWhileOpen
    ⟨trivial, trivial, trivial, trivial, trivial⟩).2 0 0 (by decide)⟩

/-- Descriptor 3 loses its handle when its switch to writing meets the reader 4; `x` is then
unlinked and created again. -/
def lostHandle : List (Outcomes × SysCall) :=
  [(quiet, .open ['x'] ⟨.rdwr, true, false, false, false⟩), (quiet, .write 3 [7]),
    (quiet, .read 3 1), (quiet, .open ['x'] ⟨.rdonly, false, false, false, false⟩),
    (quiet, .write 3 [1]), (quiet, .close 4), (quiet, .unlink ['x']),
    (quiet, .open ['x'] ⟨.wronly, true, false, false, false⟩), (quiet, .write 4 [9, 9]),
    (quiet, .close 4), (quiet, .lseek 3 0 .set)]

set_option maxRecDepth 20000 in
/-- Descriptor 3 was opened on object 0 with content 7, and reads 9 9. -/
theorem descriptor_reads_another_file :
    let s := Runs.run boundStep (unbound emptyVolumes) lostHandle
    ¬ ∀ i object, s.2 i = some object → StandsFor s.1 i object := by
  intro s h
  have hread : (sysRead quiet s.1 3 4).2 = .ok [9, 9] := by decide
  have hcontent : s.1.fx.content 0 = [7] := by decide
  obtain ⟨offset, hbytes⟩ := (h 0 0 (by decide)).read quiet 3 4 [9, 9] (by decide) hread
  rw [hcontent] at hbytes
  have := congrArg List.length hbytes
  simp at this
  omega

end SimPLCity.DescriptorIdentity
