import SimPLCity.StatCall
import SimPLCity.XorMultiplyHash

/-! The inode number of an entry is a hash of 32 bits over its path up to case. Spellings of one
entry agree on it, but entries may collide. -/

namespace SimPLCity.InodeNumbers
open PathText FileXVolume FileDescriptors FileNamespace StatCall XorMultiplyHash

def folded (p : CStr) : CStr := p.map foldAsciiCase

theorem inodeOf_eq (p : CStr) :
    inodeOf p = digest 32 16777619 2166136261 ((folded p).map Char.toNat) := by
  rw [digest, folded, List.map_map, List.foldl_map]
  rfl

theorem folded_body (cs : List Name) : folded (body cs) = body (cs.map foldName) := by
  induction cs with
  | nil => rfl
  | cons c cs ih =>
    rw [body_cons, List.map_cons, body_cons, ← ih]
    simp [folded, foldName]

theorem folded_eq_render {p : CStr} (h : Canonical p) : folded p = render (pathKey p) := by
  obtain ⟨cs, hv, rfl⟩ := h.exists_names
  rw [pathKey_render hv]
  cases cs with
  | nil => decide
  | cons c cs => rw [render_of_ne_nil (by simp), render_of_ne_nil (by simp), folded_body]

/-- The paths differ in one character, up to case. -/
def DifferInOne (p q : CStr) : Prop :=
  ∃ s c d t, folded p = s ++ c :: t ∧ folded q = s ++ d :: t ∧ c ≠ d

theorem inodeOf_eq_of_key {p q : CStr} (hp : Canonical p) (hq : Canonical q)
    (h : pathKey p = pathKey q) : inodeOf p = inodeOf q := by
  rw [inodeOf_eq, inodeOf_eq, folded_eq_render hp, folded_eq_render hq, h]

theorem toNat_lt (c : Char) : c.toNat < 2 ^ 32 := c.val.toNat_lt

theorem inodeOf_ne_of_differ {p q : CStr} (h : DifferInOne p q) : inodeOf p ≠ inodeOf q := by
  obtain ⟨s, c, d, t, hp, hq, hne⟩ := h
  rw [inodeOf_eq, inodeOf_eq, hp, hq, List.map_append, List.map_append, List.map_cons,
    List.map_cons]
  refine digest_ne_of_letter (by decide) (by decide) (toNat_lt c) (toNat_lt d) ?_
    fun heq => hne (Char.toNat_inj.mp heq)
  intro e he
  obtain ⟨x, -, rfl⟩ := List.mem_map.mp he
  exact toNat_lt x

/-- A stat of any spelling that normalises to the path, or an fstat of a descriptor that stores
it, reports the record. -/
inductive Reports (fs : FileSystem) (p : CStr) (s : StatRecord) : Prop
  | stat {o : Outcomes} {path : CStr}
      (normalized : normalizePathUnlocked fs.currentDirectory path = .ok p)
      (answer : sysStat o fs path = .ok s)
  | fstat {o : Outcomes} {file : Int} {i : Fin maximumOpenFiles}
      (slot : descriptorFor fs file = some i) (path : (fs.descriptors i).path = p)
      (answer : fstatRecord o fs file = .ok s)

section
variable {fs : FileSystem} {p q : CStr} {s t : StatRecord}

theorem Reports.record (h : Reports fs p s) : s.inode = inodeOf p ∧ s.device = 0 := by
  cases h with
  | stat hnormalized hanswer =>
    obtain ⟨info, normalized, -, hnormalized', rfl⟩ := sysStat_ok hanswer
    rw [hnormalized] at hnormalized'
    cases hnormalized'
    exact ⟨rfl, rfl⟩
  | fstat hslot hpath hanswer =>
    obtain ⟨info, -, rfl⟩ := fstatRecord_ok hslot hanswer
    rw [hpath]
    exact ⟨rfl, rfl⟩

theorem inode_identity (hp : Canonical p) (hq : Canonical q) (hs : Reports fs p s)
    (ht : Reports fs q t) :
    (pathKey p = pathKey q → s.inode = t.inode) ∧ (DifferInOne p q → s.inode ≠ t.inode) ∧
      s.device = t.device := by
  obtain ⟨hsi, hsd⟩ := hs.record
  obtain ⟨hti, htd⟩ := ht.record
  rw [hsi, hti, hsd, htd]
  exact ⟨inodeOf_eq_of_key hp hq, inodeOf_ne_of_differ, rfl⟩

end

def twoNames : FileSystem :=
  (sysOpen quiet (sysOpen quiet emptyVolumes "/flash/ddaba".toList
    { access := .rdwr, creat := true }).1 "/flash/idlo".toList
    { access := .rdwr, creat := true }).1

/-- With a file whose name differs from that of the second one in its last letter. -/
def threeNames : FileSystem :=
  (sysOpen quiet twoNames "/flash/idla".toList { access := .rdwr, creat := true }).1

theorem inode_identity_twoNames :
    (⟨⟨false, inodeOf "/flash/DDABA".toList, 0, 0⟩, 0⟩ : StatRecord).inode =
        (⟨⟨false, inodeOf "/flash/ddaba".toList, 0, 0⟩, 0⟩ : StatRecord).inode ∧
      (⟨⟨false, inodeOf "/flash/IDLO".toList, 0, 0⟩, 0⟩ : StatRecord).inode ≠
        (⟨⟨false, inodeOf "/flash/idla".toList, 0, 0⟩, 0⟩ : StatRecord).inode := by
  have hupper : normalizePathUnlocked (mountName .flash) "/flash/DDABA".toList =
      .ok "/flash/DDABA".toList := by decide
  have hlower : normalizePathUnlocked (mountName .flash) "/flash/ddaba".toList =
      .ok "/flash/ddaba".toList := by decide
  have hstat : Reports twoNames "/flash/DDABA".toList
      ⟨⟨false, inodeOf "/flash/DDABA".toList, 0, 0⟩, 0⟩ := .stat (o := quiet) hupper (by decide)
  have hstat' : Reports twoNames "/flash/ddaba".toList
      ⟨⟨false, inodeOf "/flash/ddaba".toList, 0, 0⟩, 0⟩ := .stat (o := quiet) hlower (by decide)
  have hsecond : normalizePathUnlocked (mountName .flash) "/flash/IDLO".toList =
      .ok "/flash/IDLO".toList := by decide
  have hthird : normalizePathUnlocked (mountName .flash) "/flash/idla".toList =
      .ok "/flash/idla".toList := by decide
  have hstatSecond : Reports threeNames "/flash/IDLO".toList
      ⟨⟨false, inodeOf "/flash/IDLO".toList, 0, 0⟩, 0⟩ := .stat (o := quiet) hsecond (by decide)
  have hstatThird : Reports threeNames "/flash/idla".toList
      ⟨⟨false, inodeOf "/flash/idla".toList, 0, 0⟩, 0⟩ := .stat (o := quiet) hthird (by decide)
  constructor
  · exact (inode_identity (normalizePathUnlocked_buffer hupper).canonical
      (normalizePathUnlocked_buffer hlower).canonical hstat hstat').1 (by decide)
  · exact (inode_identity (normalizePathUnlocked_buffer hsecond).canonical
      (normalizePathUnlocked_buffer hthird).canonical hstatSecond hstatThird).2.1
      ⟨"/FLASH/IDL".toList, 'O', 'A', [], by decide, by decide, by decide⟩

theorem inode_collision : ∃ s t,
    sysStat quiet twoNames "/flash/ddaba".toList = .ok s ∧
    sysStat quiet twoNames "/flash/idlo".toList = .ok t ∧ s.inode = t.inode ∧
    pathKey "/flash/ddaba".toList ≠ pathKey "/flash/idlo".toList :=
  ⟨⟨⟨false, inodeOf "/flash/ddaba".toList, 0, 0⟩, 0⟩,
    ⟨⟨false, inodeOf "/flash/idlo".toList, 0, 0⟩, 0⟩, by decide, by decide, by decide, by decide⟩

end SimPLCity.InodeNumbers
