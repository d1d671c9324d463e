import SimPLCity.CheckedBuffer
import SimPLCity.PathText

/-! Normalisation in its arrays, and what it computes: the components of the source are read from
left to right over a stack, which `..` pops. -/

namespace SimPLCity.PathEvaluation
open PathText CheckedBuffer

/-- What is copied in front of the path, and its length. -/
def sourceDirectory (currentDirectory path : CStr) (source : Buffer maximumPath) :
    Checked Errno (Buffer maximumPath × Nat) :=
  if path.head?.any isSeparator then pure (source, 0)
  else if currentDirectory.length ≥ maximumPath then throw .enametoolong
  else do
    let source ← source.copy 0 currentDirectory
    if currentDirectory.length > 1 && source.cells[currentDirectory.length - 1]? ≠ some '/' then do
      let source ← source.store currentDirectory.length '/'
      pure (source, currentDirectory.length + 1)
    else pure (source, currentDirectory.length)

def sourceBuffer (currentDirectory path : CStr) : Checked Errno (Buffer maximumPath) := do
  let (source, length) ← sourceDirectory currentDirectory path (Buffer.zeros maximumPath)
  if path.length ≥ maximumPath - length then throw .enametoolong
  else source.copy length (path ++ [terminator])

/-- `output` and `output_length` -/
structure Output where
  buffer : Buffer maximumPath
  length : Nat

def scanLength (buffer : Buffer maximumPath) : Nat → Nat
  | n + 2 => if buffer.cells[n + 1]? ≠ some '/' then scanLength buffer (n + 1) else n + 2
  | short => short

def Output.backUp (output : Output) : Checked Errno Output := do
  let scanned := scanLength output.buffer (output.length - 1)
  let length := if scanned > 1 then scanned - 1 else scanned
  let buffer ← output.buffer.store length terminator
  pure ⟨buffer, length⟩

def Output.copyComponent (output : Output) (component : CStr) : Checked Errno Output :=
  if component.length ≥ maximumPath - output.length then throw .enametoolong
  else do
    let buffer ← output.buffer.copy output.length component
    let buffer ← buffer.store (output.length + component.length) terminator
    pure ⟨buffer, output.length + component.length⟩

def Output.appendComponent (output : Output) (component : CStr) : Checked Errno Output :=
  if component.length = 0 || component = ['.'] then pure output
  else if component = ['.', '.'] then
    if output.length = 1 then throw .eacces else output.backUp
  else if output.length ≠ 1 then
    if output.length + 1 ≥ maximumPath then throw .enametoolong
    else do
      let buffer ← output.buffer.store output.length '/'
      Output.copyComponent ⟨buffer, output.length + 1⟩ component
  else output.copyComponent component

def normalizePathBuffer (buffer : Buffer maximumPath) (currentDirectory path : CStr) :
    Checked Errno Output :=
  if path = [] then throw .enoent
  else do
    let source ← sourceBuffer currentDirectory path
    let buffer ← buffer.store 0 '/'
    let buffer ← buffer.store 1 terminator
    (source.text.splitOnP isSeparator).foldlM Output.appendComponent ⟨buffer, 1⟩

structure Output.Holds (output : Output) (s : CStr) : Prop where
  buffer : output.buffer.Holds s
  length : output.length = s.length

section
variable {currentDirectory path s : CStr} {output : Output}

/-- The string without a terminator, and its length. -/
structure Prefixes (source : Buffer maximumPath × Nat) (s : CStr) : Prop where
  begins : source.1.Begins s
  length : source.2 = s.length

/-- The first half of `sourcePath`. -/
def directoryText (currentDirectory path : CStr) : Except Errno CStr :=
  if path.head?.any isSeparator then .ok []
  else if currentDirectory.length ≥ maximumPath then .error .enametoolong
  else if currentDirectory.length > 1 && currentDirectory.getLast? ≠ some '/' then
    .ok (currentDirectory ++ ['/'])
  else .ok currentDirectory

theorem sourcePath_eq : sourcePath currentDirectory path =
    directoryText currentDirectory path >>= fun source =>
      if path.length ≥ maximumPath - source.length then .error .enametoolong
      else .ok (source ++ path) := by
  unfold sourcePath directoryText
  split
  · rfl
  · split
    · rfl
    · split <;> rfl

theorem sourceDirectory_refines (source : Buffer maximumPath) :
    Refines Prefixes (sourceDirectory currentDirectory path source)
      (directoryText currentDirectory path) := by
  unfold sourceDirectory directoryText
  by_cases hhead : path.head?.any isSeparator = true
  · rw [if_pos hhead, if_pos hhead]
    exact .ok ⟨begins_nil, rfl⟩
  rw [if_neg hhead, if_neg hhead]
  by_cases hlong : currentDirectory.length ≥ maximumPath
  · rw [if_pos hlong, if_pos hlong]
    exact .error _
  rw [if_neg hlong, if_neg hlong]
  refine Refines.copy (s := []) begins_nil (by rw [List.length_nil]; omega) fun b hb => ?_
  rw [List.nil_append] at hb
  by_cases hone : currentDirectory.length > 1
  · have hlast : b.cells[currentDirectory.length - 1]? = currentDirectory.getLast? := by
      rw [hb.getElem? (by omega), List.getLast?_eq_getElem?]
    rw [hlast]
    split
    · exact .store hb (by omega) fun b' hb' => .ok ⟨hb', by simp⟩
    · exact .ok ⟨hb, rfl⟩
  · rw [decide_eq_false hone]
    exact .ok ⟨hb, rfl⟩

theorem sourceBuffer_refines : Refines Buffer.Holds (sourceBuffer currentDirectory path)
    (sourcePath currentDirectory path) := by
  rw [sourcePath_eq]
  refine (sourceDirectory_refines _).bind fun source t hsource => ?_
  obtain ⟨source, length⟩ := source
  obtain ⟨hbegins, hlength⟩ := hsource
  simp only at hbegins hlength ⊢
  subst hlength
  by_cases hlong : path.length ≥ maximumPath - t.length
  · rw [if_pos hlong, if_pos hlong]
    exact .error _
  · rw [if_neg hlong, if_neg hlong]
    obtain ⟨b, hb, hcopy⟩ := hbegins.copy (ε := Errno) (path ++ [terminator])
      (by rw [List.length_append, List.length_singleton]; omega)
    rw [hcopy]
    exact .ok (by rwa [Buffer.Holds, List.append_assoc])

theorem scanBack_take (h : output.buffer.Holds s) {n : Nat} (hn : n ≤ s.length) :
    (scanBack (s.take n).reverse).reverse = s.take (scanLength output.buffer n) ∧
      scanLength output.buffer n ≤ n := by
  induction n with
  | zero => exact ⟨rfl, Nat.le_refl _⟩
  | succ n ih =>
    cases n with
    | zero =>
      obtain ⟨c, t, rfl⟩ := List.exists_cons_of_length_pos hn
      exact ⟨rfl, Nat.le_refl _⟩
    | succ m =>
      have hlast : output.buffer.cells[m + 1]? = some s[m + 1] := by
        rw [h.begins.getElem? hn, List.getElem?_eq_getElem]
      have htake : (s.take (m + 2)).reverse = s[m + 1] :: (s.take (m + 1)).reverse := by
        rw [← List.take_concat_get hn, List.concat_eq_append, List.reverse_append]
        rfl
      obtain ⟨d, rest, hrest⟩ : ∃ d rest, (s.take (m + 1)).reverse = d :: rest := by
        refine List.exists_cons_of_ne_nil ?_
        rw [ne_eq, List.reverse_eq_nil_iff, List.take_eq_nil_iff]
        rintro (h0 | rfl)
        · exact Nat.succ_ne_zero _ h0
        · exact Nat.not_succ_le_zero _ hn
      obtain ⟨ih, hle⟩ := ih (Nat.le_of_succ_le hn)
      rw [htake, hrest, scanLength, hlast, scanBack, ← hrest]
      by_cases hslash : s[m + 1] = '/'
      · rw [if_neg (by simp [hslash]), if_neg (by simp [hslash])]
        refine ⟨?_, Nat.le_refl _⟩
        rw [← htake, List.reverse_reverse]
      · rw [if_pos hslash, if_pos (by simp [hslash])]
        exact ⟨ih, Nat.le_succ_of_le hle⟩

theorem shorten_refines {buffer : Buffer maximumPath} (h : buffer.Holds s) {n : Nat}
    (hn : n ≤ s.length) :
    Refines Output.Holds
      (buffer.store n terminator >>= fun buffer => (pure ⟨buffer, n⟩ : Checked Errno Output))
      (.ok (s.take n)) := by
  have hroom := h.length_lt
  have hlength : (s.take n).length = n := by
    rw [List.length_take]
    omega
  have hshort := h.begins.mono (List.take_prefix n s)
  obtain ⟨b, hb, hstore⟩ := hshort.store (ε := Errno) (by omega) terminator
  rw [hlength] at hstore
  rw [hstore, pure_bind]
  exact .ok ⟨hb, hlength.symm⟩

theorem backUp_refines (h : output.Holds s) :
    Refines Output.Holds output.backUp (.ok (backUp s)) := by
  obtain ⟨hbuffer, hlength⟩ := h
  obtain ⟨hscan, hle⟩ := scanBack_take hbuffer (n := s.length - 1) (Nat.sub_le ..)
  unfold Output.backUp backUp
  rw [List.dropLast_eq_take, hscan, hlength]
  generalize scanLength output.buffer (s.length - 1) = scanned at hle ⊢
  have hscanned : (s.take scanned).length = scanned := by
    rw [List.length_take]
    omega
  simp only [hscanned]
  by_cases hone : scanned > 1
  · rw [if_pos hone, if_pos hone, List.dropLast_eq_take, hscanned, List.take_take,
      Nat.min_eq_left (Nat.sub_le ..)]
    exact shorten_refines hbuffer (by omega)
  · rw [if_neg hone, if_neg hone]
    exact shorten_refines hbuffer (by omega)

theorem copyComponent_refines {output : Output} (hbuffer : output.buffer.Begins s)
    (hlength : output.length = s.length) (component : CStr) :
    Refines Output.Holds (output.copyComponent component) (copyComponent s component) := by
  unfold Output.copyComponent copyComponent
  rw [hlength]
  by_cases hlong : component.length ≥ maximumPath - s.length
  · rw [if_pos hlong, if_pos hlong]
    exact .error _
  · rw [if_neg hlong, if_neg hlong]
    refine .copy hbuffer (by omega) fun b hb => ?_
    rw [← List.length_append]
    exact .store hb (by rw [List.length_append]; omega) fun b' hb' => .ok ⟨hb', rfl⟩

theorem appendComponent_refines (component : CStr) (output : Output) (s : CStr)
    (h : output.Holds s) :
    Refines Output.Holds (output.appendComponent component) (appendComponent s component) := by
  unfold Output.appendComponent appendComponent
  split
  · exact .ok h
  · split
    · rw [h.length]
      split
      · exact .error _
      · exact backUp_refines h
    · rw [h.length]
      split
      · split
        · exact .error _
        · refine .store h.buffer.begins (by omega) fun b hb => ?_
          exact copyComponent_refines hb (by simp) component
      · exact copyComponent_refines h.buffer.begins h.length component

theorem sourcePath_plain {raw : CStr} (hcwd : terminator ∉ currentDirectory)
    (hpath : terminator ∉ path) (h : sourcePath currentDirectory path = .ok raw) :
    terminator ∉ raw := by
  have hdirectory : ∀ source, directoryText currentDirectory path = .ok source →
      terminator ∉ source := by
    intro source hsource
    unfold directoryText at hsource
    split at hsource
    · cases hsource
      exact List.not_mem_nil
    · split at hsource
      · cases hsource
      · split at hsource <;> cases hsource
        · rw [List.mem_append, not_or]
          exact ⟨hcwd, by decide⟩
        · exact hcwd
  rw [sourcePath_eq] at h
  cases hs : directoryText currentDirectory path with
  | error e =>
    rw [hs] at h
    cases h
  | ok source =>
    rw [hs] at h
    change (if path.length ≥ maximumPath - source.length then Except.error Errno.enametoolong
      else Except.ok (source ++ path)) = .ok raw at h
    split at h <;> cases h
    rw [List.mem_append, not_or]
    exact ⟨hdirectory source hs, hpath⟩

theorem normalizePathBuffer_refines (buffer : Buffer maximumPath)
    (hcwd : terminator ∉ currentDirectory) (hpath : terminator ∉ path) :
    Refines Output.Holds (normalizePathBuffer buffer currentDirectory path)
      (normalizePathUnlocked currentDirectory path) := by
  unfold normalizePathBuffer normalizePathUnlocked
  split
  · exact .error _
  · have hsource := sourceBuffer_refines.and_ok fun raw => sourcePath_plain hcwd hpath
    refine hsource.bind fun source raw h => ?_
    rw [h.1.text h.2]
    refine .store (s := []) begins_nil (by decide) fun b hb => ?_
    refine .store (s := ['/']) hb (by decide) fun b' hb' => ?_
    exact Refines.foldlM appendComponent_refines _ ⟨hb', rfl⟩

end

/-- The path with what stands in front of it. -/
def rawPath (currentDirectory path : CStr) : CStr :=
  if path.head?.any isSeparator then path
  else if currentDirectory = ['/'] then currentDirectory ++ path
  else currentDirectory ++ '/' :: path

/-- The components that count. -/
def steps (raw : CStr) : List Name := (components raw).filter (· ≠ ['.'])

/-- Nothing when `..` meets an empty stack. -/
def evaluate : List Name → List Name → Option (List Name)
  | stack, [] => some stack
  | stack, c :: cs =>
    if c = ['.', '.'] then if stack = [] then none else evaluate stack.dropLast cs
    else evaluate (stack ++ [c]) cs

/-- What normalisation is for. -/
def evaluatePath (currentDirectory path : CStr) : Except Errno CStr :=
  if path = [] then .error .enoent
  else if (rawPath currentDirectory path).length ≥ maximumPath then .error .enametoolong
  else
    match evaluate [] (steps (rawPath currentDirectory path)) with
    | none => .error .eacces
    | some names => .ok (render names)

section
variable {currentDirectory path : CStr}

theorem getLast?_body {cs : List Name} (h : ∀ c ∈ cs, ValidName c) (hne : cs ≠ []) :
    (body cs).getLast? ≠ some '/' := by
  obtain ⟨ds, d, rfl⟩ := List.eq_nil_or_concat cs |>.resolve_left hne
  rw [List.concat_eq_append] at h ⊢
  have hd := h d (by simp)
  rw [body_append, body_cons, body_nil, List.append_nil]
  obtain ⟨xs, x, hx⟩ := List.eq_nil_or_concat d |>.resolve_left hd.nonempty
  rw [hx, List.concat_eq_append, ← List.cons_append, ← List.append_assoc,
    List.getLast?_concat]
  intro h'
  exact ne_slash_of_plain hd.plain (by rw [hx]; simp) (Option.some.inj h')

theorem sourcePath_raw (h : Canonical currentDirectory) :
    sourcePath currentDirectory path =
      if (rawPath currentDirectory path).length ≥ maximumPath then .error .enametoolong
      else .ok (rawPath currentDirectory path) := by
  obtain ⟨cs, hv, rfl⟩ := h.exists_names
  rw [sourcePath_eq, directoryText, rawPath]
  by_cases hhead : path.head?.any isSeparator = true
  · rw [if_pos hhead, if_pos hhead]
    rfl
  rw [if_neg hhead, if_neg hhead]
  by_cases hcs : cs = []
  · subst hcs
    rw [render_nil, if_neg (by decide), if_neg (by decide), if_pos rfl]
    have hroom : path.length ≥ maximumPath - ['/'].length ↔
        (['/'] ++ path).length ≥ maximumPath := by
      rw [List.length_append]
      have hone : ['/'].length ≤ maximumPath := by decide
      omega
    change (if path.length ≥ maximumPath - ['/'].length then Except.error Errno.enametoolong
      else Except.ok (['/'] ++ path)) = _
    by_cases hlong : path.length ≥ maximumPath - ['/'].length
    · rw [if_pos hlong, if_pos (hroom.mp hlong)]
    · rw [if_neg hlong, if_neg (mt hroom.mpr hlong)]
  · have hlast := getLast?_body hv hcs
    have hone : (render cs).length > 1 := by
      have hpos := render_length_pos cs
      have hne := mt (length_render_eq_one hv).mp hcs
      omega
    have hroot : render cs ≠ ['/'] := by
      intro hroot
      rw [hroot] at hone
      exact absurd hone (by decide)
    have hraw : render cs ++ '/' :: path = render cs ++ ['/'] ++ path := by simp
    rw [if_neg hroot, hraw]
    by_cases hlong : (render cs).length ≥ maximumPath
    · rw [if_pos hlong, if_pos (by simp only [List.length_append]; omega)]
      rfl
    rw [if_neg hlong, if_pos (by rw [render_of_ne_nil hcs] at hone ⊢; simp [hone, hlast])]
    change (if path.length ≥ maximumPath - (render cs ++ ['/']).length then
      Except.error Errno.enametoolong else Except.ok (render cs ++ ['/'] ++ path)) = _
    have hroom : path.length ≥ maximumPath - (render cs ++ ['/']).length ↔
        (render cs ++ ['/'] ++ path).length ≥ maximumPath := by
      simp only [List.length_append, List.length_singleton]
      omega
    by_cases hlong : path.length ≥ maximumPath - (render cs ++ ['/']).length
    · rw [if_pos hlong, if_pos (hroom.mp hlong)]
    · rw [if_neg hlong, if_neg (mt hroom.mpr hlong)]

theorem head_rawPath (h : Canonical currentDirectory) :
    (rawPath currentDirectory path).head?.any isSeparator = true := by
  obtain ⟨cs, hv, rfl⟩ := h.exists_names
  rw [rawPath]
  split
  · assumption
  · cases cs with
    | nil => rfl
    | cons c cs =>
      rw [render_of_ne_nil (List.cons_ne_nil c cs), body_cons]
      split <;> rfl

theorem length_splitOnP (raw : CStr) :
    (body (raw.splitOnP isSeparator)).length = raw.length + 1 := by
  induction raw with
  | nil => rfl
  | cons c raw ih =>
    rw [List.splitOnP_cons_eq_if_modifyHead]
    split
    · rw [body_cons, List.length_cons, List.nil_append, ih, List.length_cons]
    · obtain ⟨d, ds, hd⟩ := List.exists_cons_of_ne_nil (List.splitOnP_ne_nil isSeparator raw)
      rw [hd, body_cons] at ih
      rw [hd, List.modifyHead_cons, body_cons, List.cons_append, List.length_cons,
        List.length_cons, List.length_cons, ← ih, List.length_cons]

theorem length_render {cs : List Name} (h : cs ≠ []) :
    (render cs).length = (body cs).length := by rw [render_of_ne_nil h]

/-- The components that remain fit behind the stack, so that none of them is too long. -/
theorem foldlM_evaluate {stack cs : List Name} (hstack : ∀ c ∈ stack, ValidName c)
    (hplain : ∀ c ∈ cs, ∀ x ∈ c, isSeparator x = false)
    (hroom : (body stack).length + (body cs).length < maximumPath) :
    cs.foldlM appendComponent (render stack) =
      match evaluate stack ((cs.filter (· ≠ [])).filter (· ≠ ['.'])) with
      | none => .error .eacces
      | some names => .ok (render names) := by
  induction cs generalizing stack with
  | nil => rfl
  | cons c cs ih =>
    rw [body_cons, List.length_cons, List.length_append] at hroom
    have hrest : ∀ d ∈ cs, ∀ x ∈ d, isSeparator x = false := fun d hd => hplain d (by simp [hd])
    rw [List.foldlM_cons]
    by_cases hskip : (c.length = 0 || c = ['.']) = true
    · have hfilter : ((c :: cs).filter (· ≠ [])).filter (· ≠ ['.']) =
          (cs.filter (· ≠ [])).filter (· ≠ ['.']) := by
        rw [Bool.or_eq_true, decide_eq_true_eq, decide_eq_true_eq, List.length_eq_zero_iff] at hskip
        rcases hskip with rfl | rfl <;> rfl
      rw [appendComponent, if_pos hskip, hfilter]
      exact ih hstack hrest (by omega)
    have hfilter : ((c :: cs).filter (· ≠ [])).filter (· ≠ ['.']) =
        c :: (cs.filter (· ≠ [])).filter (· ≠ ['.']) := by
      rw [Bool.or_eq_true, decide_eq_true_eq, decide_eq_true_eq, List.length_eq_zero_iff,
        not_or] at hskip
      rw [List.filter_cons_of_pos (by simpa using hskip.1),
        List.filter_cons_of_pos (by simpa using hskip.2)]
    rw [hfilter, evaluate]
    by_cases hdots : c = ['.', '.']
    · rw [appendComponent, if_neg hskip, if_pos hdots, if_pos hdots]
      by_cases hempty : stack = []
      · subst hempty
        rfl
      · obtain ⟨ds, d, rfl⟩ := List.eq_nil_or_concat stack |>.resolve_left hempty
        rw [List.concat_eq_append] at hstack hroom hempty ⊢
        rw [if_neg (mt (length_render_eq_one hstack).mp hempty), backUp_render ds d hstack,
          if_neg hempty, List.dropLast_concat]
        rw [body_append, List.length_append] at hroom
        exact ih (fun c hc => hstack c (by simp [hc])) hrest (by omega)
    · have hc := validName_of_appended (hplain c (by simp)) hskip hdots
      have hlength : (body (stack ++ [c])).length = (body stack).length + (1 + c.length) := by
        rw [body_append, List.length_append, body_cons, body_nil, List.append_nil,
          List.length_cons, Nat.add_comm 1]
      rw [appendComponent_name hstack hc, if_neg hdots, length_render (by simp),
        if_pos (by omega)]
      refine ih (fun d hd => ?_) hrest (by omega)
      rcases List.mem_append.mp hd with hd | hd
      · exact hstack d hd
      · exact List.mem_singleton.mp hd ▸ hc

theorem foldlM_rawPath (h : Canonical currentDirectory)
    (hlength : (rawPath currentDirectory path).length < maximumPath) :
    ((rawPath currentDirectory path).splitOnP isSeparator).foldlM appendComponent ['/'] =
      match evaluate [] (steps (rawPath currentDirectory path)) with
      | none => .error .eacces
      | some names => .ok (render names) := by
  have hhead : (rawPath currentDirectory path).head?.any isSeparator = true := head_rawPath h
  rw [steps, components]
  generalize rawPath currentDirectory path = raw at hlength hhead ⊢
  cases raw with
  | nil => cases hhead
  | cons c raw =>
    have hc : isSeparator c = true := hhead
    rw [List.splitOnP_cons_eq_if_modifyHead, if_pos hc, List.foldlM_cons]
    have hnone : ∀ c ∈ ([] : List Name), ValidName c := by simp
    refine foldlM_evaluate hnone (splitOnP_plain raw) ?_
    rw [length_splitOnP, body_nil, List.length_nil, Nat.zero_add]
    exact hlength

theorem normalizePathUnlocked_eq (h : Canonical currentDirectory) :
    normalizePathUnlocked currentDirectory path = evaluatePath currentDirectory path := by
  unfold normalizePathUnlocked evaluatePath
  split
  · rfl
  · rw [sourcePath_raw h]
    split
    · rfl
    · exact foldlM_rawPath h (by omega)

theorem foldlM_never_long (h : Canonical currentDirectory) {source : CStr}
    (hsource : sourcePath currentDirectory path = .ok source) :
    (source.splitOnP isSeparator).foldlM appendComponent ['/'] ≠ .error .enametoolong := by
  rw [sourcePath_raw h] at hsource
  split at hsource
  · cases hsource
  · rename_i hlong
    cases hsource
    rw [foldlM_rawPath h (by omega)]
    cases evaluate [] (steps (rawPath currentDirectory path)) <;> exact fun he => by cases he

end

theorem normalizePath_evaluates {currentDirectory path : CStr} (h : Canonical currentDirectory)
    (hcwd : terminator ∉ currentDirectory) (hpath : terminator ∉ path) :
    normalizePathUnlocked currentDirectory path = evaluatePath currentDirectory path ∧
    (∀ source, sourcePath currentDirectory path = .ok source →
      (source.splitOnP isSeparator).foldlM appendComponent ['/'] ≠ .error .enametoolong) ∧
    (∀ buffer, Refines Output.Holds (normalizePathBuffer buffer currentDirectory path)
      (evaluatePath currentDirectory path)) ∧
    ∀ out, evaluatePath currentDirectory path = .ok out →
      Canonical out ∧ out.length < maximumPath ∧ ∀ directory,
        normalizePathUnlocked directory out = .ok out := by
  have heq : normalizePathUnlocked currentDirectory path = evaluatePath currentDirectory path :=
    normalizePathUnlocked_eq h
  refine ⟨heq, fun source hsource => foldlM_never_long h hsource, fun buffer => ?_, ?_⟩
  · rw [← heq]
    exact normalizePathBuffer_refines buffer hcwd hpath
  · intro out hout
    rw [← heq] at hout
    have hbuffer := normalizePathUnlocked_buffer hout
    exact ⟨hbuffer.canonical, hbuffer.fits, fun directory =>
      normalizePathUnlocked_canonical directory hbuffer.canonical hbuffer.fits⟩

theorem canonical_singleton {c : Name} (h : ValidName c) : Canonical ('/' :: c) :=
  ⟨[c], fun _ hd => List.mem_singleton.mp hd ▸ h, by simp [render]⟩

theorem normalizePath_evaluates_parent :
    normalizePathUnlocked "/flash".toList "../sd/./alpha".toList =
      evaluatePath "/flash".toList "../sd/./alpha".toList :=
  (normalizePath_evaluates (canonical_singleton (c := "flash".toList)
    ⟨by decide, by decide, by decide, plain_of_any (by decide)⟩) (by decide) (by decide)).1

/-- With its terminator this path takes all of the 256 bytes, and it is accepted. -/
theorem normalizePath_fills_array :
    (rawPath ['/'] ('/' :: List.replicate 254 'a')).length + 1 = maximumPath ∧
      normalizePathUnlocked ['/'] ('/' :: List.replicate 254 'a') =
        .ok ('/' :: List.replicate 254 'a') := by
  have hname : ValidName (List.replicate 254 'a') := by
    refine ⟨List.replicate_succ_ne_nil, ?_, ?_, fun x hx => ?_⟩
    · exact fun h => absurd (congrArg List.length h) (by rw [List.length_replicate]; decide)
    · exact fun h => absurd (congrArg List.length h) (by rw [List.length_replicate]; decide)
    · rw [List.eq_of_mem_replicate hx]
      decide
  have hlength : ('/' :: List.replicate 254 'a').length = 255 := by
    rw [List.length_cons, List.length_replicate]
  refine ⟨?_, normalizePathUnlocked_canonical _ (canonical_singleton hname) ?_⟩
  · rw [rawPath, if_pos (by rfl), hlength]
    rfl
  · rw [hlength]
    decide

end SimPLCity.PathEvaluation
