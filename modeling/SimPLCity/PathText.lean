import Mathlib.Data.List.Infix
import Mathlib.Data.List.Basic
import SimPLCity.PathTree

/-! Path strings of the libc adapter: normalisation, the case-insensitive prefix
test and prefix migration, character by character. A canonical string is a
rendered list of component names; `pathKey` is that list up to ASCII case, which
is how FileX names an entry. A null path and an empty one take the same branch
and are both the empty list here. -/

namespace SimPLCity.PathText

abbrev CStr := List Char

inductive Errno
  | enoent | eexist | einval | eisdir | enotdir | enotempty | enospc | eacces | enotsup | eio
  | enametoolong | enodev | exdev | ebusy | emfile | ebadf | eoverflow
deriving DecidableEq, Repr

/-- Size of every path array, the terminating null included. -/
def maximumPath : Nat := 256

def isSeparator (c : Char) : Bool := c = '/' || c = '\\'

/-- The string that is scanned: an absolute path alone, else the current directory before it. -/
def sourcePath (currentDirectory path : CStr) : Except Errno CStr := do
  let source ←
    if path.head?.any isSeparator then .ok []
    else if currentDirectory.length ≥ maximumPath then .error .enametoolong
    else if currentDirectory.length > 1 && currentDirectory.getLast? ≠ some '/' then
      .ok (currentDirectory ++ ['/'])
    else .ok currentDirectory
  if path.length ≥ maximumPath - source.length then .error .enametoolong
  else .ok (source ++ path)

/-- `while (output_length > 1 && output[output_length - 1] != '/') --output_length`,
on the reversed buffer. -/
def scanBack : CStr → CStr
  | c :: d :: rest => if c ≠ '/' then scanBack (d :: rest) else c :: d :: rest
  | short => short

/-- The buffer after a `..` component. -/
def backUp (output : CStr) : CStr :=
  let scanned := (scanBack output.dropLast.reverse).reverse
  if scanned.length > 1 then scanned.dropLast else scanned

def copyComponent (output component : CStr) : Except Errno CStr :=
  if component.length ≥ maximumPath - output.length then .error .enametoolong
  else .ok (output ++ component)

/-- One round of the loop over components; an empty component is the end of the string. -/
def appendComponent (output component : CStr) : Except Errno CStr :=
  if component.length = 0 || component = ['.'] then .ok output
  else if component = ['.', '.'] then
    if output.length = 1 then .error .eacces else .ok (backUp output)
  else if output.length ≠ 1 then
    if output.length + 1 ≥ maximumPath then .error .enametoolong
    else copyComponent (output ++ ['/']) component
  else copyComponent output component

def normalizePathUnlocked (currentDirectory path : CStr) : Except Errno CStr :=
  if path = [] then .error .enoent
  else do
    let source ← sourcePath currentDirectory path
    (source.splitOnP isSeparator).foldlM appendComponent ['/']

def foldAsciiCase (c : Char) : Char :=
  if 'a'.toNat ≤ c.toNat ∧ c.toNat ≤ 'z'.toNat then Char.ofNat (c.toNat - 'a'.toNat + 'A'.toNat)
  else c

/-- The comparison loop over `prefix`, then the test of the character that follows it. -/
def pathHasPrefix : CStr → CStr → Bool → Bool
  | rest, [], includeDescendants =>
    rest = [] || (includeDescendants && rest.head? = some '/')
  | [], _ :: _, _ => false
  | a :: path, b :: pre, includeDescendants =>
    foldAsciiCase a = foldAsciiCase b && pathHasPrefix path pre includeDescendants

def pathsEqual (first second : CStr) : Bool := pathHasPrefix first second false

def migratedPathLength (path oldPrefix newPrefix : CStr) (includeDescendants : Bool) : Nat :=
  if pathHasPrefix path oldPrefix includeDescendants then
    newPrefix.length + (path.drop oldPrefix.length).length
  else path.length

def migratePath (path oldPrefix newPrefix : CStr) (includeDescendants : Bool) : CStr :=
  if pathHasPrefix path oldPrefix includeDescendants then
    newPrefix ++ path.drop oldPrefix.length
  else path

theorem migratePath_length (path oldPrefix newPrefix : CStr) (d : Bool) :
    (migratePath path oldPrefix newPrefix d).length =
      migratedPathLength path oldPrefix newPrefix d := by
  unfold migratePath migratedPathLength
  split <;> simp

abbrev Name := CStr

/-- A component that normalisation can leave in its output. -/
structure ValidName (c : Name) : Prop where
  nonempty : c ≠ []
  not_dot : c ≠ ['.']
  not_dots : c ≠ ['.', '.']
  plain : ∀ x ∈ c, isSeparator x = false

theorem plain_of_any {c : Name} (h : c.any isSeparator = false) :
    ∀ x ∈ c, isSeparator x = false := by simpa using h

/-- Every component behind its own separator. -/
def body (names : List Name) : CStr := names.flatMap ('/' :: ·)

def render (names : List Name) : CStr := if names = [] then ['/'] else body names

@[simp] theorem body_nil : body [] = [] := rfl

@[simp] theorem body_cons (c : Name) (cs : List Name) : body (c :: cs) = '/' :: (c ++ body cs) := by
  simp [body]

theorem body_append (as bs : List Name) : body (as ++ bs) = body as ++ body bs := by
  simp [body]

@[simp] theorem render_nil : render [] = ['/'] := rfl

theorem render_of_ne_nil {cs : List Name} (h : cs ≠ []) : render cs = body cs := by
  simp [render, h]

structure Canonical (p : CStr) : Prop where
  exists_names : ∃ cs, (∀ c ∈ cs, ValidName c) ∧ p = render cs

/-- The component names of a path string. -/
def components (p : CStr) : List Name := (p.splitOnP isSeparator).filter (· ≠ [])

def foldName (c : Name) : Name := c.map foldAsciiCase

@[simp] theorem foldName_cons (x : Char) (c : Name) :
    foldName (x :: c) = foldAsciiCase x :: foldName c := rfl

/-- The names of a path up to ASCII case. -/
def pathKey (p : CStr) : List Name := (components p).map foldName

theorem splitOnP_body (cs : List Name) (h : ∀ c ∈ cs, ValidName c) (hne : cs ≠ []) :
    (body cs).splitOnP isSeparator = [] :: cs := by
  induction cs with
  | nil => exact absurd rfl hne
  | cons c cs ih =>
    have hc := (h c (by simp)).plain
    rw [body_cons, ← List.nil_append ('/' :: _),
      List.splitOnP_append_cons_of_forall_mem (by simp) '/' (by decide)]
    rcases cs with _ | ⟨d, ds⟩
    · rw [body_nil, List.append_nil, List.splitOnP_eq_singleton hc]
    · have hd := ih (fun x hx => h x (by simp [hx])) (by simp)
      rw [body_cons, List.splitOnP_append_cons_of_forall_mem hc '/' (by decide)]
      rw [body_cons, ← List.nil_append ('/' :: _),
        List.splitOnP_append_cons_of_forall_mem (by simp) '/' (by decide)] at hd
      rw [(List.cons.inj hd).2]

theorem components_render (cs : List Name) (h : ∀ c ∈ cs, ValidName c) :
    components (render cs) = cs := by
  by_cases hne : cs = []
  · subst hne
    decide
  · rw [components, render_of_ne_nil hne, splitOnP_body cs h hne]
    have : cs.filter (fun c => decide (c ≠ [])) = cs := by
      rw [List.filter_eq_self]
      intro c hc
      simpa using (h c hc).nonempty
    simpa using this

theorem Canonical.render_components {p : CStr} (h : Canonical p) : render (components p) = p := by
  obtain ⟨cs, hv, rfl⟩ := h.exists_names
  rw [components_render cs hv]

theorem Canonical.validName {p : CStr} (h : Canonical p) : ∀ c ∈ components p, ValidName c := by
  obtain ⟨cs, hv, rfl⟩ := h.exists_names
  rwa [components_render cs hv]

theorem canonical_render {cs : List Name} (h : ∀ c ∈ cs, ValidName c) : Canonical (render cs) :=
  ⟨cs, h, rfl⟩

theorem render_length_pos (cs : List Name) : 0 < (render cs).length := by
  cases cs <;> simp [render]

theorem length_render_eq_one {cs : List Name} (h : ∀ c ∈ cs, ValidName c) :
    (render cs).length = 1 ↔ cs = [] := by
  cases cs with
  | nil => simp
  | cons c cs =>
    have : 0 < c.length := List.length_pos_of_ne_nil (h c (by simp)).nonempty
    simp only [render, reduceCtorEq, if_false, body_cons, List.length_cons, List.length_append,
      iff_false]
    omega

theorem scanBack_component (xs rest : CStr) (h : ∀ x ∈ xs, isSeparator x = false) :
    scanBack (xs ++ '/' :: rest) = '/' :: rest := by
  induction xs with
  | nil => cases rest <;> simp [scanBack]
  | cons x xs ih =>
    have hx : x ≠ '/' := by
      rintro rfl
      exact absurd (h '/' (by simp)) (by decide)
    have hs := ih (fun y hy => h y (by simp [hy]))
    rcases xs with _ | ⟨y, ys⟩
    · simp only [List.nil_append] at hs
      simp [scanBack, hx, hs]
    · simp only [List.cons_append] at hs ⊢
      rw [scanBack, if_pos hx, hs]

theorem backUp_render (cs : List Name) (c : Name) (h : ∀ d ∈ cs ++ [c], ValidName d) :
    backUp (render (cs ++ [c])) = render cs := by
  have hc := h c (by simp)
  have hb : render (cs ++ [c]) = body cs ++ '/' :: c := by
    rw [render_of_ne_nil (by simp), body_append]
    simp
  have hlast : (body cs ++ '/' :: c).dropLast.reverse =
      c.dropLast.reverse ++ '/' :: (body cs).reverse := by
    obtain ⟨x, xs, rfl⟩ := List.exists_cons_of_ne_nil hc.nonempty
    simp [List.dropLast_append_of_ne_nil, List.dropLast_cons_of_ne_nil]
  have hscan : (scanBack (body cs ++ '/' :: c).dropLast.reverse).reverse = body cs ++ ['/'] := by
    rw [hlast, scanBack_component]
    · simp
    · intro x hx
      exact hc.plain x (List.dropLast_subset _ (List.mem_reverse.mp hx))
  simp only [backUp, hb, hscan]
  cases cs with
  | nil => rfl
  | cons d ds =>
    rw [if_pos (by simp [Nat.add_assoc]; omega), List.dropLast_concat, render_of_ne_nil (by simp)]

/-- What the output buffer holds between two rounds of the loop. -/
structure NormalBuffer (output : CStr) : Prop where
  canonical : Canonical output
  fits : output.length < maximumPath

theorem normalBuffer_root : NormalBuffer ['/'] :=
  ⟨⟨[], by simp, rfl⟩, by decide⟩

theorem validName_of_appended {c : Name} (hplain : ∀ x ∈ c, isSeparator x = false)
    (h1 : ¬ (c.length = 0 || c = ['.']) = true) (h2 : c ≠ ['.', '.']) : ValidName c := by
  simp only [Bool.or_eq_true, decide_eq_true_eq, not_or] at h1
  exact ⟨fun h0 => h1.1 (by simp [h0]), h1.2, h2, hplain⟩

theorem render_concat (cs : List Name) (c : Name) :
    render (cs ++ [c]) = (if cs = [] then ['/'] else render cs ++ ['/']) ++ c := by
  by_cases h : cs = []
  · simp [h, render]
  · simp [render, h, body_append]

theorem copyComponent_eq {output component : CStr} (h : output.length < maximumPath) :
    copyComponent output component =
      if (output ++ component).length < maximumPath then .ok (output ++ component)
      else .error .enametoolong := by
  rw [copyComponent, List.length_append]
  split_ifs <;> first | rfl | omega

theorem appendComponent_name {cs : List Name} {c : Name} (hv : ∀ d ∈ cs, ValidName d)
    (hc : ValidName c) :
    appendComponent (render cs) c =
      if (render (cs ++ [c])).length < maximumPath then .ok (render (cs ++ [c]))
      else .error .enametoolong := by
  have hskip : ¬ (c.length = 0 || c = ['.']) = true := by simp [hc.nonempty, hc.not_dot]
  rw [appendComponent, if_neg hskip, if_neg hc.not_dots, render_concat]
  by_cases hcs : cs = []
  · subst hcs
    rw [if_neg (by simp), if_pos rfl, copyComponent_eq (by decide), render_nil]
  · have hlen : (render cs).length ≠ 1 := fun h1 => hcs ((length_render_eq_one hv).mp h1)
    rw [if_pos hlen, if_neg hcs]
    by_cases hsep : (render cs).length + 1 ≥ maximumPath
    · rw [if_pos hsep, if_neg (by simp only [List.length_append, List.length_singleton]; omega)]
    · rw [if_neg hsep, copyComponent_eq (by simp only [List.length_append, List.length_singleton]; omega)]

theorem appendComponent_buffer {output component out : CStr} (hb : NormalBuffer output)
    (hplain : ∀ x ∈ component, isSeparator x = false)
    (h : appendComponent output component = .ok out) : NormalBuffer out := by
  obtain ⟨⟨cs, hv, rfl⟩, hfits⟩ := hb
  by_cases hskip : (component.length = 0 || component = ['.']) = true
  · rw [appendComponent, if_pos hskip] at h
    cases h
    exact ⟨canonical_render hv, hfits⟩
  · by_cases hdots : component = ['.', '.']
    · rw [appendComponent, if_neg hskip, if_pos hdots] at h
      rcases List.eq_nil_or_concat cs with rfl | ⟨ds, d, rfl⟩
      · cases h
      · rw [List.concat_eq_append] at hv hfits h
        split at h
        · cases h
        · cases h
          rw [backUp_render ds d hv]
          have hshort : (render ds).length ≤ (render (ds ++ [d])).length := by
            rw [render_concat]
            split <;> simp_all [render]
          exact ⟨canonical_render fun c hc => hv c (by simp [hc]), hshort.trans_lt hfits⟩
    · have hval := validName_of_appended hplain hskip hdots
      rw [appendComponent_name hv hval] at h
      split at h
      · rename_i hfit
        cases h
        refine ⟨canonical_render fun c hc => ?_, hfit⟩
        rcases List.mem_append.mp hc with hc | hc
        · exact hv c hc
        · exact List.mem_singleton.mp hc ▸ hval
      · cases h

theorem foldlM_buffer {output out : CStr} {cs : List CStr} (hb : NormalBuffer output)
    (hplain : ∀ c ∈ cs, ∀ x ∈ c, isSeparator x = false)
    (h : cs.foldlM appendComponent output = .ok out) : NormalBuffer out := by
  induction cs generalizing output with
  | nil =>
    cases h
    exact hb
  | cons c cs ih =>
    rw [List.foldlM_cons] at h
    cases hc : appendComponent output c with
    | error e => rw [hc] at h; cases h
    | ok next =>
      rw [hc] at h
      exact ih (appendComponent_buffer hb (hplain c (by simp)) hc)
        (fun d hd => hplain d (by simp [hd])) h

theorem splitOnP_plain (p : CStr) : ∀ c ∈ p.splitOnP isSeparator, ∀ x ∈ c, isSeparator x = false := by
  induction p with
  | nil => simp
  | cons a p ih =>
    rw [List.splitOnP_cons_eq_if_modifyHead]
    split
    · intro c hc
      rcases List.mem_cons.mp hc with rfl | hc
      · simp
      · exact ih c hc
    · rename_i ha
      obtain ⟨q, qs, hq⟩ := List.exists_cons_of_ne_nil (List.splitOnP_ne_nil isSeparator p)
      rw [hq] at ih ⊢
      intro c hc x hx
      simp only [List.modifyHead_cons, List.mem_cons] at hc
      rcases hc with rfl | hc
      · rcases List.mem_cons.mp hx with rfl | hx
        · simpa using ha
        · exact ih q (by simp) x hx
      · exact ih c (by simp [hc]) x hx

theorem normalizePathUnlocked_buffer {cwd path out : CStr}
    (h : normalizePathUnlocked cwd path = .ok out) : NormalBuffer out := by
  unfold normalizePathUnlocked at h
  split at h
  · cases h
  · cases hs : sourcePath cwd path with
    | error e => rw [hs] at h; cases h
    | ok source =>
      rw [hs] at h
      exact foldlM_buffer normalBuffer_root (splitOnP_plain source) h

theorem render_length_mono (as bs : List Name) : (render as).length ≤ (render (as ++ bs)).length := by
  cases as with
  | nil => exact render_length_pos bs
  | cons a as => simp [render, body_append]

theorem foldlM_render (as bs : List Name) (h : ∀ d ∈ as ++ bs, ValidName d)
    (hfit : (render (as ++ bs)).length < maximumPath) :
    bs.foldlM appendComponent (render as) = .ok (render (as ++ bs)) := by
  induction bs generalizing as with
  | nil => simp [pure, Except.pure]
  | cons b bs ih =>
    have happ : as ++ b :: bs = (as ++ [b]) ++ bs := by simp
    rw [happ] at h hfit ⊢
    rw [List.foldlM_cons, appendComponent_name (fun d hd => h d (by simp [hd])) (h b (by simp)),
      if_pos ((render_length_mono _ bs).trans_lt hfit)]
    exact ih _ h hfit

theorem normalizePathUnlocked_canonical {p : CStr} (cwd : CStr) (h : Canonical p)
    (hfit : p.length < maximumPath) : normalizePathUnlocked cwd p = .ok p := by
  obtain ⟨cs, hv, rfl⟩ := h.exists_names
  have hhead : (render cs).head?.any isSeparator = true := by
    cases cs <;> simp [render, isSeparator]
  have hne : render cs ≠ [] := List.ne_nil_of_length_pos (render_length_pos cs)
  have hsrc : sourcePath cwd (render cs) = .ok (render cs) := by
    simp only [sourcePath, hhead, if_true, bind, Except.bind, List.length_nil, Nat.sub_zero]
    rw [if_neg (by simpa using hfit)]
    simp
  rw [normalizePathUnlocked, if_neg hne, hsrc]
  change (render cs |>.splitOnP isSeparator).foldlM appendComponent ['/'] = _
  rcases cs with _ | ⟨c, cs⟩
  · rfl
  · rw [render_of_ne_nil (by simp), splitOnP_body _ hv (by simp), List.foldlM_cons]
    have := foldlM_render [] (c :: cs) (by simpa using hv) (by simpa using hfit)
    rw [render_nil, List.nil_append, render_of_ne_nil (by simp)] at this
    exact this

theorem upperCase_toNat : ∀ k < 26, 'A'.toNat ≤ (Char.ofNat (k + 'A'.toNat)).toNat := by decide

/-- Folding meets no character in front of the capital letters. -/
theorem foldAsciiCase_eq_iff {d : Char} (hd : d.toNat < 'A'.toNat) (c : Char) :
    foldAsciiCase c = d ↔ c = d := by
  unfold foldAsciiCase
  split
  · rename_i h
    have hlo : 'a'.toNat = 97 := rfl
    have hhi : 'z'.toNat = 122 := rfl
    have hup : 'A'.toNat = 65 := rfl
    constructor
    · rintro rfl
      have := upperCase_toNat (c.toNat - 'a'.toNat) (by omega)
      omega
    · rintro rfl
      omega
  · rfl

@[simp] theorem foldAsciiCase_eq_slash (c : Char) : foldAsciiCase c = '/' ↔ c = '/' :=
  foldAsciiCase_eq_iff (by decide) c

@[simp] theorem foldAsciiCase_eq_dot (c : Char) : foldAsciiCase c = '.' ↔ c = '.' :=
  foldAsciiCase_eq_iff (by decide) c

theorem ValidName.foldName_ne_dot {c : Name} (h : ValidName c) : foldName c ≠ ['.'] := by
  intro he
  obtain ⟨x, rfl, hx⟩ := List.map_eq_singleton_iff.mp he
  exact h.not_dot (by simpa using hx)

theorem ValidName.foldName_ne_dots {c : Name} (h : ValidName c) : foldName c ≠ ['.', '.'] := by
  intro he
  obtain ⟨x, rest, rfl, hx, hrest⟩ := List.map_eq_cons_iff.mp he
  obtain ⟨y, rfl, hy⟩ := List.map_eq_singleton_iff.mp hrest
  exact h.not_dots (by simp [(foldAsciiCase_eq_dot x).mp hx, (foldAsciiCase_eq_dot y).mp hy])

theorem ne_slash_of_plain {c : Name} (h : ∀ x ∈ c, isSeparator x = false) {x : Char} (hx : x ∈ c) :
    x ≠ '/' := by
  rintro rfl
  exact absurd (h _ hx) (by decide)

/-- The remainder of a canonical string after one of its components. -/
def Boundary (x : CStr) : Prop := x = [] ∨ ∃ y, x = '/' :: y

theorem boundary_body (cs : List Name) : Boundary (body cs) := by
  cases cs with
  | nil => exact Or.inl rfl
  | cons c cs => exact Or.inr ⟨_, body_cons c cs⟩

theorem pathHasPrefix_component {a b x y : CStr} (d : Bool)
    (ha : ∀ c ∈ a, isSeparator c = false) (hb : ∀ c ∈ b, isSeparator c = false)
    (hx : Boundary x) (hy : Boundary y) :
    pathHasPrefix (a ++ x) (b ++ y) d = (decide (foldName a = foldName b) && pathHasPrefix x y d) := by
  induction a generalizing b with
  | nil =>
    rcases b with _ | ⟨c, b⟩
    · simp
    · have hc := ne_slash_of_plain hb (List.mem_cons_self ..)
      rcases hx with rfl | ⟨z, rfl⟩
      · simp [pathHasPrefix, foldName]
      · have : foldAsciiCase '/' ≠ foldAsciiCase c := fun h =>
          hc ((foldAsciiCase_eq_slash c).mp (h.symm.trans ((foldAsciiCase_eq_slash '/').mpr rfl)))
        simp [pathHasPrefix, foldName, this]
  | cons e a ih =>
    have he := ne_slash_of_plain ha (List.mem_cons_self ..)
    rcases b with _ | ⟨c, b⟩
    · rcases hy with rfl | ⟨z, rfl⟩
      · simp [pathHasPrefix, foldName, he]
      · have : foldAsciiCase e ≠ foldAsciiCase '/' := fun h =>
          he ((foldAsciiCase_eq_slash e).mp (h.trans ((foldAsciiCase_eq_slash '/').mpr rfl)))
        simp [pathHasPrefix, foldName, this]
    · have := @ih b (fun z hz => ha z (by simp [hz])) (fun z hz => hb z (by simp [hz]))
      rw [Bool.eq_iff_iff]
      simp [pathHasPrefix, this, and_assoc]

theorem pathHasPrefix_body (ps qs : List Name) (d : Bool) (hp : ∀ c ∈ ps, ValidName c)
    (hq : ∀ c ∈ qs, ValidName c) :
    pathHasPrefix (body ps) (body qs) d = true ↔
      qs.map foldName <+: ps.map foldName ∧ (d = true ∨ ps.length = qs.length) := by
  induction qs generalizing ps with
  | nil => cases ps <;> simp [pathHasPrefix]
  | cons q qs ih =>
    rcases ps with _ | ⟨p, ps⟩
    · simp [pathHasPrefix]
    · have hrec := ih ps (fun c hc => hp c (by simp [hc])) (fun c hc => hq c (by simp [hc]))
      rw [body_cons, body_cons, pathHasPrefix, pathHasPrefix_component d (hp p (by simp)).plain
        (hq q (by simp)).plain (boundary_body ps) (boundary_body qs)]
      simp only [decide_true, Bool.true_and, Bool.and_eq_true, decide_eq_true_eq, hrec,
        List.map_cons, List.cons_prefix_cons, List.length_cons, Nat.add_right_cancel_iff]
      tauto

theorem pathHasPrefix_render {ps qs : List Name} (d : Bool) (hp : ∀ c ∈ ps, ValidName c)
    (hq : ∀ c ∈ qs, ValidName c) (hne : qs ≠ []) :
    pathHasPrefix (render ps) (render qs) d = true ↔
      qs.map foldName <+: ps.map foldName ∧ (d = true ∨ ps.length = qs.length) := by
  rw [render_of_ne_nil hne]
  by_cases hps : ps = []
  · subst hps
    obtain ⟨q, qs, rfl⟩ := List.exists_cons_of_ne_nil hne
    obtain ⟨x, xs, hx⟩ := List.exists_cons_of_ne_nil (hq q (by simp)).nonempty
    simp [pathHasPrefix, hx]
  · rw [render_of_ne_nil hps, pathHasPrefix_body ps qs d hp hq]

theorem drop_body {ps qs : List Name} (h : qs.map foldName <+: ps.map foldName) :
    (body ps).drop (body qs).length = body (ps.drop qs.length) := by
  induction qs generalizing ps with
  | nil => simp
  | cons q qs ih =>
    rcases ps with _ | ⟨p, ps⟩
    · simp at h
    · rw [List.map_cons, List.map_cons, List.cons_prefix_cons] at h
      have hlen : q.length = p.length := by simpa [foldName] using congrArg List.length h.1
      have := ih h.2
      simp only [body_cons, List.length_cons, List.length_append, List.drop_succ_cons, hlen,
        ← List.drop_drop, List.drop_left, this]

section Keys
variable {p q : CStr}

@[simp] theorem pathKey_render {cs : List Name} (h : ∀ c ∈ cs, ValidName c) :
    pathKey (render cs) = cs.map foldName := by
  rw [pathKey, components_render cs h]

theorem Canonical.components_ne_nil (h : Canonical p) (hp : p ≠ ['/']) : components p ≠ [] := by
  intro h0
  rw [← h.render_components, h0] at hp
  exact hp rfl

theorem Canonical.pathKey_eq_nil (h : Canonical p) : pathKey p = [] ↔ p = ['/'] := by
  constructor
  · intro hk
    by_contra hp
    exact h.components_ne_nil hp (by simpa [pathKey] using hk)
  · rintro rfl
    decide

theorem pathHasPrefix_iff (hp : Canonical p) (hq : Canonical q) (hne : q ≠ ['/']) :
    pathHasPrefix p q true = true ↔ pathKey q <+: pathKey p := by
  rw [← hp.render_components, ← hq.render_components,
    pathHasPrefix_render true hp.validName hq.validName (hq.components_ne_nil hne),
    pathKey_render hp.validName, pathKey_render hq.validName]
  simp

theorem pathsEqual_iff (hp : Canonical p) (hq : Canonical q) (hne : q ≠ ['/']) :
    pathsEqual p q = true ↔ pathKey p = pathKey q := by
  rw [← hp.render_components, ← hq.render_components, pathsEqual,
    pathHasPrefix_render false hp.validName hq.validName (hq.components_ne_nil hne),
    pathKey_render hp.validName, pathKey_render hq.validName]
  constructor
  · rintro ⟨h, h'⟩
    exact (List.IsPrefix.eq_of_length h (by simpa [eq_comm] using h')).symm
  · intro h
    exact ⟨h ▸ List.prefix_rfl, Or.inr (by simpa using congrArg List.length h)⟩

theorem pathHasPrefix_flag_iff (d : Bool) (hp : Canonical p) (hq : Canonical q) (hne : q ≠ ['/']) :
    pathHasPrefix p q d = true ↔ pathKey q <+: pathKey p ∧ (d = true ∨ pathKey p = pathKey q) := by
  cases d with
  | true => simp [pathHasPrefix_iff hp hq hne]
  | false =>
    have := pathsEqual_iff hp hq hne
    rw [pathsEqual] at this
    rw [this]
    constructor
    · intro h
      exact ⟨h ▸ List.prefix_rfl, Or.inr h⟩
    · rintro ⟨_, h | h⟩
      · cases h
      · exact h

variable {old new : CStr}

theorem migratePath_eq_render (d : Bool) (hp : Canonical p) (ho : Canonical old)
    (hn : Canonical new) (hone : old ≠ ['/']) (hnne : new ≠ ['/'])
    (h : pathHasPrefix p old d = true) :
    migratePath p old new d =
      render (components new ++ (components p).drop (components old).length) := by
  have hkey := (pathHasPrefix_flag_iff d hp ho hone).mp h
  have hon := ho.components_ne_nil hone
  have hnn := hn.components_ne_nil hnne
  have hpn : components p ≠ [] := by
    intro h0
    have := hkey.1
    simp [pathKey, h0, hon] at this
  rw [migratePath, if_pos h, render_of_ne_nil (by simp [hnn]), body_append]
  conv_lhs => rw [← hp.render_components, ← ho.render_components, ← hn.render_components]
  rw [render_of_ne_nil hon, render_of_ne_nil hnn, render_of_ne_nil hpn, drop_body hkey.1]

theorem migratePath_canonical (d : Bool) (hp : Canonical p) (ho : Canonical old)
    (hn : Canonical new) (hone : old ≠ ['/']) (hnne : new ≠ ['/']) :
    Canonical (migratePath p old new d) := by
  by_cases h : pathHasPrefix p old d = true
  · rw [migratePath_eq_render d hp ho hn hone hnne h]
    refine canonical_render fun c hc => ?_
    rcases List.mem_append.mp hc with hc | hc
    · exact hn.validName c hc
    · exact hp.validName c (List.mem_of_mem_drop hc)
  · rwa [migratePath, if_neg h]

theorem pathKey_migratePath (d : Bool) (hp : Canonical p) (ho : Canonical old)
    (hn : Canonical new) (hone : old ≠ ['/']) (hnne : new ≠ ['/']) :
    pathKey (migratePath p old new d) =
      if d = true ∨ pathKey p = pathKey old then
        PathTree.rebase (pathKey old) (pathKey new) (pathKey p)
      else pathKey p := by
  by_cases h : pathHasPrefix p old d = true
  · have hkey := (pathHasPrefix_flag_iff d hp ho hone).mp h
    have hcan := migratePath_canonical d hp ho hn hone hnne
    rw [migratePath_eq_render d hp ho hn hone hnne h] at hcan ⊢
    rw [if_pos hkey.2, PathTree.rebase, if_pos hkey.1, pathKey_render]
    · simp [pathKey]
    · intro c hc
      rcases List.mem_append.mp hc with hc | hc
      · exact hn.validName c hc
      · exact hp.validName c (List.mem_of_mem_drop hc)
  · rw [migratePath, if_neg h]
    split
    · rename_i hd
      rw [PathTree.rebase_outside]
      exact fun hpre => h ((pathHasPrefix_flag_iff d hp ho hone).mpr ⟨hpre, hd⟩)
    · rfl

end Keys

example : normalizePathUnlocked ['/'] "/flash/alpha//beta/./gamma".toList =
    .ok "/flash/alpha/beta/gamma".toList := by decide

example : normalizePathUnlocked "/flash".toList "../../escape".toList = .error .eacces := by decide

end SimPLCity.PathText
