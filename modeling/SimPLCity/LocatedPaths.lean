import SimPLCity.FileNamespace

/-! Where a canonical path leads: the virtual root, or a key below a mounted volume.
Resolving, asking for information and normalising again are then facts about keys. -/

namespace SimPLCity.LocatedPaths
open PathText FileXVolume PathTree FileDescriptors FileNamespace

theorem bind_eq_ok {ε α β : Type} {x : Except ε α} {f : α → Except ε β} {b : β}
    (h : x >>= f = .ok b) : ∃ a, x = .ok a ∧ f a = .ok b := by
  cases x with
  | error e => cases h
  | ok a => exact ⟨a, rfl, h⟩

def mountKey : Volume → Name
  | .flash => ['F', 'L', 'A', 'S', 'H']
  | .sd => ['S', 'D']

theorem mountKey_injective {v w : Volume} (h : mountKey v = mountKey w) : v = w := by
  cases v <;> cases w <;> first | rfl | exact absurd h (by decide)

theorem mountName_canonical (v : Volume) : Canonical (mountName v) := by
  refine ⟨[(mountName v).tail], ?_, by cases v <;> rfl⟩
  intro c hc
  rw [List.mem_singleton.mp hc]
  cases v <;> exact ⟨by decide, by decide, by decide, plain_of_any (by decide)⟩

theorem mountName_ne_root (v : Volume) : mountName v ≠ ['/'] := by cases v <;> decide

@[simp] theorem pathKey_mountName (v : Volume) : pathKey (mountName v) = [mountKey v] := by
  cases v <;> decide

/-- `p` is a canonical path of the entry `k` of the mounted volume `v`. -/
structure Located (mounted : Volume → Bool) (p : CStr) (v : Volume) (k : List Name) : Prop where
  canonical : Canonical p
  mounted : mounted v = true
  key : pathKey p = mountKey v :: k

section
variable {mounted : Volume → Bool} {p q : CStr} {v w : Volume} {k l : List Name}

theorem Located.ne_root (h : Located mounted p v k) : p ≠ ['/'] := by
  rintro rfl
  simpa [h.canonical.pathKey_eq_nil.mpr rfl] using h.key

theorem Located.unique (h : Located mounted p v k) (h' : Located mounted p w l) :
    v = w ∧ k = l := by
  have := h.key.symm.trans h'.key
  simp only [List.cons.injEq] at this
  exact ⟨mountKey_injective this.1, this.2⟩

theorem mountName_hasPrefix (h : Canonical p) (v : Volume) :
    pathHasPrefix p (mountName v) true = true ↔ ∃ k, pathKey p = mountKey v :: k := by
  rw [pathHasPrefix_iff h (mountName_canonical v) (mountName_ne_root v), pathKey_mountName]
  constructor
  · rintro ⟨k, hk⟩
    exact ⟨k, by simpa using hk.symm⟩
  · rintro ⟨k, hk⟩
    exact ⟨k, by simpa using hk.symm⟩

theorem drop_mountName (h : Canonical p) (hk : pathKey p = mountKey v :: k) :
    ∃ cs, (∀ c ∈ cs, ValidName c) ∧ cs.map foldName = k ∧
      p.drop (mountName v).length = body cs := by
  obtain ⟨names, hv, rfl⟩ := h.exists_names
  rw [pathKey_render hv] at hk
  rcases names with _ | ⟨m, cs⟩
  · simp at hk
  · have hm : mountName v = body [(mountName v).tail] := by cases v <;> rfl
    rw [List.map_cons, List.cons.injEq] at hk
    refine ⟨cs, fun c hc => hv c (by simp [hc]), hk.2, ?_⟩
    rw [render_of_ne_nil (by simp), hm, drop_body]
    · simp
    · have : foldName (mountName v).tail = mountKey v := by cases v <;> decide
      simp [this, hk.1]

theorem localPath_key {cs : List Name} (h : ∀ c ∈ cs, ValidName c) :
    pathKey (if body cs = [] then ['/'] else body cs) = cs.map foldName := by
  cases cs with
  | nil => decide
  | cons c cs => rw [if_neg (by simp), ← render_of_ne_nil (by simp), pathKey_render h]

/-- A resolved path is described by its volume and its key. -/
structure Resolved (r : ResolvedPath) (v : Volume) (k : List Name) : Prop where
  volume : r.volume = v
  virtualRoot : r.virtualRoot = false
  mountRoot : r.mountRoot = decide (k = [])
  key : pathKey r.localPath = k

theorem Resolved.media {r : ResolvedPath} (h : Resolved r v k) : r.media = some v := by
  simp [ResolvedPath.media, h.virtualRoot, h.volume]

theorem resolveNormalizedPath_of_key (mounted : Volume → Bool) (h : Canonical p) (hk : pathKey p = mountKey v :: k) :
    if mounted v = true then ∃ r, resolveNormalizedPath mounted p = .ok r ∧ Resolved r v k
    else resolveNormalizedPath mounted p = .error .enodev := by
  have hne : p ≠ ['/'] := by
    rintro rfl
    simp [h.pathKey_eq_nil.mpr rfl] at hk
  have hfind : [Volume.flash, Volume.sd].find? (fun w => pathHasPrefix p (mountName w) true) =
      some v := by
    have hv := (mountName_hasPrefix h v).mpr ⟨k, hk⟩
    cases v with
    | flash => simp [hv]
    | sd =>
      have : ¬ pathHasPrefix p (mountName .flash) true = true := by
        rw [mountName_hasPrefix h]
        rintro ⟨l, hl⟩
        have := hk.symm.trans hl
        simp only [List.cons.injEq] at this
        exact absurd this.1 (by decide)
      simp [hv, this]
  obtain ⟨cs, hv, hcs, hdrop⟩ := drop_mountName h hk
  by_cases hm : mounted v = true
  · rw [if_pos hm]
    refine ⟨_, by simp only [resolveNormalizedPath, hne, if_false, hfind, hm, not_true]; rfl, ?_⟩
    refine ⟨rfl, rfl, ?_, ?_⟩
    · rw [hdrop, ← hcs]
      cases cs <;> simp
    · simp only [hdrop]
      rw [localPath_key hv, hcs]
  · simp [hm, resolveNormalizedPath, hne, hfind]

theorem resolveNormalizedPath_located (h : Located mounted p v k) :
    ∃ r, resolveNormalizedPath mounted p = .ok r ∧ Resolved r v k := by
  simpa [h.mounted] using
    resolveNormalizedPath_of_key mounted h.canonical h.key

theorem resolveNormalizedPath_ok {r : ResolvedPath} (h : Canonical p)
    (hr : resolveNormalizedPath mounted p = .ok r) :
    (p = ['/'] ∧ r.virtualRoot = true) ∨ ∃ v k, Located mounted p v k ∧ Resolved r v k := by
  by_cases hne : p = ['/']
  · left
    refine ⟨hne, ?_⟩
    rw [resolveNormalizedPath, if_pos hne] at hr
    cases hr
    rfl
  · right
    cases hf : [Volume.flash, Volume.sd].find? (fun w => pathHasPrefix p (mountName w) true) with
    | none => simp [resolveNormalizedPath, hne, hf] at hr
    | some v =>
      have hv : pathHasPrefix p (mountName v) true = true := by simpa using List.find?_some hf
      obtain ⟨k, hk⟩ := (mountName_hasPrefix h v).mp hv
      have hspec := resolveNormalizedPath_of_key mounted h hk
      by_cases hm : mounted v = true
      · rw [if_pos hm] at hspec
        obtain ⟨r', hr', hres⟩ := hspec
        obtain rfl : r' = r := by
          rw [hr'] at hr
          exact Except.ok.inj hr
        exact ⟨v, k, ⟨h, hm, hk⟩, hres⟩
      · rw [if_neg hm, hr] at hspec
        cases hspec

theorem resolvePathUnlocked_ok {fs : FileSystem} {r : ResolvedPath} {path : CStr}
    (h : resolvePathUnlocked fs path = .ok (p, r)) :
    normalizePathUnlocked fs.currentDirectory path = .ok p ∧
      resolveNormalizedPath fs.mounted p = .ok r := by
  obtain ⟨n, hn, h⟩ := bind_eq_ok h
  obtain ⟨s, hs, h⟩ := bind_eq_ok h
  cases h
  exact ⟨hn, hs⟩

theorem resolved_entry {r : ResolvedPath} (h : Canonical p)
    (hr : resolveNormalizedPath mounted p = .ok r)
    (hroot : ¬ (r.virtualRoot || r.mountRoot) = true) :
    ∃ v k, Located mounted p v k ∧ Resolved r v k ∧ k ≠ [] := by
  simp only [Bool.or_eq_true, not_or] at hroot
  rcases resolveNormalizedPath_ok h hr with ⟨_, hv⟩ | ⟨v, k, hl, hres⟩
  · exact absurd hv hroot.1
  · refine ⟨v, k, hl, hres, ?_⟩
    rintro rfl
    simp [hres.mountRoot] at hroot

def entryInformation (fx : FileX) (n : Node ObjectId) : EntryInformation :=
  ⟨if n.directory then 0 else fx.entrySize n.object, n.directory⟩

theorem informationUnlocked_located {fs : FileSystem} (x : Service) (fault : Option Fault)
    (h : Located fs.mounted p v k) (hfit : p.length < maximumPath) (hk : k ≠ []) :
    informationUnlocked x fault fs p =
      match fault, (fs.fx.media v).find? k with
      | some f, _ => .error ((filexErrno f.status).getD .eio)
      | none, none => .error .enoent
      | none, some n => .ok (entryInformation fs.fx n) := by
  obtain ⟨r, hr, hres⟩ := resolveNormalizedPath_located h
  have hm : r.mountRoot = false := by simp [hres.mountRoot, hk]
  have hfind : fs.fx.find? r.volume r.localPath = (fs.fx.media v).find? k := by
    rw [FileX.find?, hres.volume, hres.key]
  unfold informationUnlocked
  simp only [normalizePathUnlocked_canonical _ h.canonical hfit, hr, bind, Except.bind,
    h.ne_root, if_false, hm, Bool.false_eq_true]
  cases fault with
  | some f =>
    have hstatus := x.information_fault f fs.fx r.volume r.localPath
    have hne := f.status_ne_success
    split
    · rename_i heq
      rw [heq] at hstatus
      exact absurd hstatus.symm hne
    · rename_i heq
      rw [heq] at hstatus
      obtain rfl := hstatus
      rfl
  | none =>
    cases hn : (fs.fx.media v).find? k with
    | none =>
      have hstatus := x.information_missing _ _ _ (hfind.trans hn)
      split
      · rename_i heq
        rw [heq] at hstatus
        cases hstatus
      · rename_i heq
        rw [heq] at hstatus
        obtain rfl := hstatus
        rfl
    | some n =>
      rw [x.information_entry _ _ _ n (hfind.trans hn)]
      rfl

theorem informationUnlocked_ok {fs : FileSystem} {x : Service} {fault : Option Fault}
    {info : EntryInformation}
    (h : Located fs.mounted p v k) (hfit : p.length < maximumPath) (hk : k ≠ [])
    (hi : informationUnlocked x fault fs p = .ok info) :
    fault = none ∧ ∃ n, (fs.fx.media v).find? k = some n ∧ info = entryInformation fs.fx n := by
  rw [informationUnlocked_located x fault h hfit hk] at hi
  cases fault with
  | some f => cases hi
  | none =>
    refine ⟨rfl, ?_⟩
    cases hn : (fs.fx.media v).find? k with
    | none => simp [hn] at hi
    | some n =>
      rw [hn] at hi
      exact ⟨n, rfl, (Except.ok.inj hi).symm⟩

theorem informationUnlocked_directory {fs : FileSystem} {x : Service} {fault : Option Fault}
    {info : EntryInformation} (hb : NormalBuffer p)
    (hi : informationUnlocked x fault fs p = .ok info) (hd : info.directory = true) :
    p = ['/'] ∨ ∃ v k, Located fs.mounted p v k ∧ (fs.fx.media v).isDirectory k = true := by
  by_cases hroot : p = ['/']
  · exact Or.inl hroot
  · right
    cases hr : resolveNormalizedPath fs.mounted p with
    | error e =>
      simp [informationUnlocked, normalizePathUnlocked_canonical _ hb.canonical hb.fits, hroot, hr,
        bind, Except.bind] at hi
    | ok r =>
      rcases resolveNormalizedPath_ok hb.canonical hr with ⟨h0, _⟩ | ⟨v, k, hl, hres⟩
      · exact absurd h0 hroot
      · refine ⟨v, k, hl, ?_⟩
        by_cases hk : k = []
        · simp [hk]
        · obtain ⟨_, n, hn, rfl⟩ := informationUnlocked_ok hl hb.fits hk hi
          rw [isDirectory_of_find? hn]
          exact hd

theorem rebase_cons (a : Name) (old new c : List Name) :
    rebase (a :: old) (a :: new) (a :: c) = a :: rebase old new c := by
  by_cases h : old <+: c
  · obtain ⟨s, rfl⟩ := h
    rw [rebase_append, ← List.cons_append, rebase_append, List.cons_append]
  · rw [rebase_outside new h, rebase_outside]
    exact fun hpre => h (List.cons_prefix_cons.mp hpre).2

theorem Located.migratePath {old new : CStr} {k' c : List Name} (d : Bool)
    (hp : Located mounted p w c) (ho : Located mounted old v k) (hn : Located mounted new v k') :
    Located mounted (migratePath p old new d) w
      (if w = v ∧ (d = true ∨ c = k) then rebase k k' c else c) := by
  refine ⟨migratePath_canonical d hp.canonical ho.canonical hn.canonical ho.ne_root hn.ne_root,
    hp.mounted, ?_⟩
  rw [pathKey_migratePath d hp.canonical ho.canonical hn.canonical ho.ne_root hn.ne_root, hp.key,
    ho.key, hn.key]
  by_cases hw : w = v
  · subst hw
    by_cases hd : d = true ∨ c = k
    · simp only [List.cons.injEq, true_and, hd, if_true, rebase_cons]
    · simp only [List.cons.injEq, true_and, hd, if_false]
  · have hkey : mountKey w ≠ mountKey v := fun h => hw (mountKey_injective h)
    have hout : ¬ mountKey v :: k <+: mountKey w :: c := fun hpre =>
      hkey (List.cons_prefix_cons.mp hpre).1.symm
    simp [hw, hkey, rebase_outside _ hout]

theorem migratePath_root {old new : CStr} (d : Bool) (ho : Canonical old) (hne : old ≠ ['/']) :
    PathText.migratePath ['/'] old new d = ['/'] := by
  have hroot : Canonical ['/'] := ⟨[], by simp, rfl⟩
  rw [PathText.migratePath, if_neg]
  rw [pathHasPrefix_flag_iff d hroot ho hne, hroot.pathKey_eq_nil.mpr rfl]
  simp [ho.pathKey_eq_nil, hne]

end

end SimPLCity.LocatedPaths
