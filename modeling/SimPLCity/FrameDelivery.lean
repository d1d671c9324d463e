import SimPLCity.FrameReceive

/-! The two backends on the same frames. They agree if and only if no frame that is discarded is too
long for the caller's buffer, and none has left its bytes there when no frame is returned. -/

namespace SimPLCity.FrameDelivery
open EtherTypes FrameReceive

/-- The device gives the frames before the time is up, in whatever fragments. -/
inductive Reads (timeoutTicks : Nat) : List Frame → List Read → Prop
  | expires {r rest} (hp : r.packet = []) (he : r.expired timeoutTicks = true) :
      Reads timeoutTicks [] (r :: rest)
  | waits {frames r rest} (hp : r.packet = []) (he : r.expired timeoutTicks = false)
      (h : Reads timeoutTicks frames rest) : Reads timeoutTicks frames (r :: rest)
  | last {r rest} (hp : r.packet ≠ []) (hlen : ∀ f ∈ r.packet, f.len ≤ f.buffer.length)
      (he : r.expired timeoutTicks = true) : Reads timeoutTicks [contents r.packet] (r :: rest)
  | gives {frames r rest} (hp : r.packet ≠ []) (hlen : ∀ f ∈ r.packet, f.len ≤ f.buffer.length)
      (he : r.expired timeoutTicks = false) (h : Reads timeoutTicks frames rest) :
      Reads timeoutTicks (contents r.packet :: frames) (r :: rest)

/-- The socket gives the frames before the deadline, among interruptions and outgoing frames. They are
those that the filter set by `start` has let through (`PacketFilter.accepts`). -/
inductive Polls : List Frame → List Poll → Prop
  | expires {rest} : Polls [] (.expired :: rest)
  | again {frames errno rest} (he : errno = eintr ∨ errno = eagain) (h : Polls frames rest) :
      Polls frames (.ready (.failed errno) :: rest)
  | outgoing {frames sent rest} (h : Polls frames rest) :
      Polls frames (.ready (.packet true sent) :: rest)
  | gives {frames received rest} (h : Polls frames rest) :
      Polls (received :: frames) (.ready (.packet false received) :: rest)

/-- The buffer after a frame was copied to it. -/
def overwrite (frame received : Frame) : Frame := received ++ frame.drop received.length

def stm32Frames (T : Option EtherType) (frame : Frame) (taken : Nat) : List Frame → Outcome
  | [] => ⟨.error .timedOut, frame, taken⟩
  | received :: frames =>
    if frame.length < received.length then ⟨.error .noBufferSpace, frame, taken + 1⟩
    else if passes T received then ⟨.ok received.length, overwrite frame received, taken + 1⟩
    else stm32Frames T (overwrite frame received) (taken + 1) frames

def linuxFrames (T : Option EtherType) (frame : Frame) (taken : Nat) : List Frame → Outcome
  | [] => ⟨.error .timedOut, frame, taken⟩
  | received :: frames =>
    if !passes T received then linuxFrames T frame (taken + 1) frames
    else if frame.length < received.length then ⟨.error .noBufferSpace, frame, taken + 1⟩
    else ⟨.ok received.length, overwrite frame received, taken + 1⟩

section
variable {T : Option EtherType} {frame : Frame} {taken : Nat} {frames : List Frame}

theorem inspect_eq {packet : List Fragment} (hlen : ∀ f ∈ packet, f.len ≤ f.buffer.length)
    (hmax : (contents packet).length ≤ maxFrameSize) :
    inspect T frame packet =
      if frame.length < (contents packet).length then (some (.error .noBufferSpace), frame)
      else if passes T (contents packet) then
        (some (.ok (contents packet).length), overwrite frame (contents packet))
      else (none, overwrite frame (contents packet)) := by
  have hsize := length_contents hlen
  unfold inspect
  rw [← hsize]
  by_cases hfit : frame.length < (contents packet).length
  · simp only [hfit, or_true, if_true]
  · have hcopy : copyFragments frame 0 packet = overwrite frame (contents packet) := by
      rw [copyFragments_eq frame 0 packet hlen (by omega), overwrite, hsize]
      simp
    have htake : (overwrite frame (contents packet)).take (contents packet).length =
        contents packet := List.take_left' rfl
    simp only [hcopy, htake, hfit, or_false, Nat.not_lt.mpr hmax, if_false]

theorem readLoop_eq {timeoutTicks : Nat} {reads : List Read} (h : Reads timeoutTicks frames reads)
    (hmax : ∀ f ∈ frames, f.length ≤ maxFrameSize) (frame : Frame) (taken : Nat) :
    readLoop T timeoutTicks frame taken reads = some (stm32Frames T frame taken frames) := by
  induction h generalizing frame taken with
  | expires hp he => simp only [readLoop, hp, he, if_true, stm32Frames]
  | waits hp he _ ih =>
    simp only [readLoop, hp, he, if_true]
    exact ih hmax frame taken
  | @last r rest hp hlen he =>
    rw [readLoop, if_neg hp, inspect_eq hlen (hmax _ (by simp)), stm32Frames]
    by_cases hfit : frame.length < (contents r.packet).length
    · rw [if_pos hfit, if_pos hfit]
    · rw [if_neg hfit, if_neg hfit]
      cases passes T (contents r.packet) with
      | true => rfl
      | false => simp [he, stm32Frames]
  | @gives frames r rest hp hlen he _ ih =>
    rw [readLoop, if_neg hp, inspect_eq hlen (hmax _ (by simp)), stm32Frames]
    by_cases hfit : frame.length < (contents r.packet).length
    · rw [if_pos hfit, if_pos hfit]
    · rw [if_neg hfit, if_neg hfit]
      cases passes T (contents r.packet) with
      | true => rfl
      | false =>
        simp only [he]
        exact ih (fun f hf => hmax f (List.mem_cons_of_mem _ hf)) _ _

theorem pollLoop_eq {polls : List Poll} (h : Polls frames polls)
    (hmax : ∀ f ∈ frames, f.length ≤ maxFrameSize) (frame : Frame) (taken : Nat) :
    pollLoop T frame taken polls = some (linuxFrames T frame taken frames) := by
  induction h generalizing frame taken with
  | expires => rfl
  | again he _ ih => rw [pollLoop, if_pos he, ih hmax]
  | outgoing _ ih => rw [pollLoop, ih hmax]
  | @gives frames received rest _ ih =>
    rw [pollLoop, if_neg (Nat.not_lt.mpr (hmax received (by simp))), linuxFrames]
    split
    · exact ih (fun f hf => hmax f (List.mem_cons_of_mem _ hf)) _ _
    · split <;> rfl

/-- The frames in front of the first one that passes. -/
def skipped (T : Option EtherType) (frames : List Frame) : List Frame :=
  frames.takeWhile fun f => !passes T f

/-- Both return the first frame that passes, or the same error, after the same frames; without a
frame the buffer is as it was. -/
structure Agree (T : Option EtherType) (frame : Frame) (frames : List Frame) (o o' : Outcome) :
    Prop where
  result : o.result = o'.result
  taken : o.taken = o'.taken
  returned : ∀ n, o.result = .ok n → ∃ f, frames.find? (passes T) = some f ∧ n = f.length ∧
    o.frame.take n = f ∧ o'.frame.take n = f
  unchanged : (∀ n, o.result ≠ .ok n) → o.frame = frame ∧ o'.frame = frame

/-- The byte that the last frame that reaches so far has there. -/
def lastByte : List Frame → Nat → Option UInt8
  | [], _ => none
  | f :: frames, i => (lastByte frames i).or f[i]?

/-- The skipped frames fit into the buffer, and the bytes that they leave there are those that were
there, unless a frame that fits is returned. -/
def Harmless (T : Option EtherType) (frame : Frame) (frames : List Frame) : Prop :=
  (∀ f ∈ skipped T frames, f.length ≤ frame.length) ∧
    ((∃ f, frames.find? (passes T) = some f ∧ f.length ≤ frame.length) ∨
      ∀ i b, lastByte (skipped T frames) i = some b → frame[i]? = some b)

def overwriteAll (frame : Frame) (frames : List Frame) : Frame := frames.foldl overwrite frame

theorem length_overwrite {received : Frame} (h : received.length ≤ frame.length) :
    (overwrite frame received).length = frame.length := by
  rw [overwrite, List.length_append, List.length_drop]
  omega

theorem overwrite_getElem? (received : Frame) (i : Nat) :
    (overwrite frame received)[i]? = received[i]?.or frame[i]? := by
  unfold overwrite
  rcases Nat.lt_or_ge i received.length with hi | hi
  · rw [List.getElem?_append_left hi, List.getElem?_eq_getElem hi, Option.some_or]
  · rw [List.getElem?_append_right hi, List.getElem?_eq_none hi, Option.none_or, List.getElem?_drop,
      Nat.add_sub_cancel' hi]

theorem overwriteAll_getElem? (frame : Frame) (i : Nat) :
    (overwriteAll frame frames)[i]? = (lastByte frames i).or frame[i]? := by
  induction frames generalizing frame with
  | nil => rfl
  | cons f frames ih =>
    rw [overwriteAll, List.foldl_cons, ← overwriteAll, ih, overwrite_getElem?, lastByte,
      Option.or_assoc]

theorem overwriteAll_eq_iff :
    overwriteAll frame frames = frame ↔ ∀ i b, lastByte frames i = some b → frame[i]? = some b := by
  constructor
  · intro heq i b hb
    rw [← heq, overwriteAll_getElem?, hb, Option.some_or]
  · intro hsame
    apply List.ext_getElem?
    intro i
    rw [overwriteAll_getElem?]
    cases hb : lastByte frames i with
    | none => rw [Option.none_or]
    | some b => rw [Option.some_or, hsame i b hb]

theorem linuxFrames_eq (frame : Frame) (taken : Nat) :
    linuxFrames T frame taken frames =
      match frames.find? (passes T) with
      | none => ⟨.error .timedOut, frame, taken + (skipped T frames).length⟩
      | some f =>
        if frame.length < f.length then
          ⟨.error .noBufferSpace, frame, taken + (skipped T frames).length + 1⟩
        else ⟨.ok f.length, overwrite frame f, taken + (skipped T frames).length + 1⟩ := by
  induction frames generalizing taken with
  | nil => rfl
  | cons f frames ih =>
    cases hpass : passes T f with
    | true => simp [linuxFrames, hpass, skipped]
    | false =>
      have hskip : (skipped T (f :: frames)).length = (skipped T frames).length + 1 := by
        simp [skipped, hpass]
      rw [linuxFrames, List.find?_cons_of_neg (by simp [hpass]), hskip]
      simp only [hpass, Bool.not_false, if_true]
      rw [ih, Nat.add_assoc taken 1, Nat.add_comm 1]

theorem stm32Frames_fits (frame : Frame) (taken : Nat)
    (hfit : ∀ f ∈ skipped T frames, f.length ≤ frame.length) :
    stm32Frames T frame taken frames =
      match frames.find? (passes T) with
      | none =>
        ⟨.error .timedOut, overwriteAll frame (skipped T frames), taken + (skipped T frames).length⟩
      | some f =>
        if frame.length < f.length then
          ⟨.error .noBufferSpace, overwriteAll frame (skipped T frames),
            taken + (skipped T frames).length + 1⟩
        else ⟨.ok f.length, overwrite (overwriteAll frame (skipped T frames)) f,
            taken + (skipped T frames).length + 1⟩ := by
  induction frames generalizing frame taken with
  | nil => rfl
  | cons f frames ih =>
    cases hpass : passes T f with
    | true => simp [stm32Frames, hpass, skipped, overwriteAll]
    | false =>
      have hskip : skipped T (f :: frames) = f :: skipped T frames := by simp [skipped, hpass]
      rw [hskip] at hfit ⊢
      have hf : f.length ≤ frame.length := hfit f (by simp)
      have hlength := length_overwrite hf
      rw [stm32Frames, if_neg (by omega), List.find?_cons_of_neg (by simp [hpass])]
      simp only [hpass, Bool.false_eq_true, if_false]
      rw [ih _ _ (fun g hg => by rw [hlength]; exact hfit g (List.mem_cons_of_mem f hg)), hlength,
        List.length_cons, Nat.add_assoc taken 1, Nat.add_comm 1]
      rfl

/-- A skipped frame that is too long ends the call before the first frame that passes. -/
theorem stm32Frames_too_long (frame : Frame) (taken : Nat)
    (hlong : ∃ f ∈ skipped T frames, frame.length < f.length) :
    (stm32Frames T frame taken frames).result = .error .noBufferSpace ∧
      (stm32Frames T frame taken frames).taken ≤ taken + (skipped T frames).length := by
  induction frames generalizing frame taken with
  | nil => simp [skipped] at hlong
  | cons f frames ih =>
    cases hpass : passes T f with
    | true => simp [skipped, hpass] at hlong
    | false =>
      have hskip : skipped T (f :: frames) = f :: skipped T frames := by simp [skipped, hpass]
      rw [hskip] at hlong ⊢
      rw [stm32Frames]
      by_cases hf : frame.length < f.length
      · rw [if_pos hf]
        exact ⟨rfl, by simp⟩
      · have hlength := length_overwrite (Nat.le_of_not_lt hf)
        obtain ⟨g, hg, hlt⟩ := hlong
        have hg : g ∈ skipped T frames := (List.mem_cons.mp hg).resolve_left fun heq => hf (heq ▸ hlt)
        have hrest := ih (overwrite frame f) (taken + 1) ⟨g, hg, by rw [hlength]; exact hlt⟩
        simp only [if_neg hf, hpass, Bool.false_eq_true, if_false]
        refine ⟨hrest.1, Nat.le_trans hrest.2 ?_⟩
        rw [List.length_cons]
        omega

theorem agree_iff (frame : Frame) :
    Agree T frame frames (stm32Frames T frame 0 frames) (linuxFrames T frame 0 frames) ↔
      Harmless T frame frames := by
  by_cases hfit : ∀ f ∈ skipped T frames, f.length ≤ frame.length
  · have hstm32 : stm32Frames T frame 0 frames = _ := stm32Frames_fits frame 0 hfit
    have hlinux : linuxFrames T frame 0 frames = _ := linuxFrames_eq frame 0
    rw [hstm32, hlinux, Harmless, ← overwriteAll_eq_iff]
    cases hfirst : frames.find? (passes T) with
    | none =>
      constructor
      · intro h
        exact ⟨hfit, Or.inr (h.unchanged (by simp)).1⟩
      · rintro ⟨-, ⟨f, hf, -⟩ | heq⟩
        · cases hf
        · exact ⟨rfl, rfl, by simp, fun _ => ⟨heq, rfl⟩⟩
    | some f =>
      dsimp only
      by_cases hlong : frame.length < f.length
      · rw [if_pos hlong, if_pos hlong]
        constructor
        · intro h
          exact ⟨hfit, Or.inr (h.unchanged (by simp)).1⟩
        · rintro ⟨-, ⟨g, hg, hle⟩ | heq⟩
          · cases hg
            omega
          · exact ⟨rfl, rfl, by simp, fun _ => ⟨heq, rfl⟩⟩
      · rw [if_neg hlong, if_neg hlong]
        refine ⟨fun _ => ⟨hfit, Or.inl ⟨f, rfl, Nat.le_of_not_lt hlong⟩⟩, fun _ => ⟨rfl, rfl, ?_, ?_⟩⟩
        · intro n hn
          cases hn
          exact ⟨f, hfirst, rfl, List.take_left' rfl, List.take_left' rfl⟩
        · intro hnot
          exact absurd rfl (hnot f.length)
  · -- the STM32 backend stops at a frame that the other discards
    refine ⟨fun h => ?_, fun h => absurd h.1 hfit⟩
    have hlong : ∃ f ∈ skipped T frames, frame.length < f.length := by
      simpa only [not_forall, exists_prop, Nat.not_le] using hfit
    obtain ⟨hresult, htaken⟩ := stm32Frames_too_long frame 0 hlong
    have hsame := h.result
    have hcount := h.taken
    rw [hresult, linuxFrames_eq] at hsame
    rw [linuxFrames_eq] at hcount
    cases hfirst : frames.find? (passes T) with
    | none =>
      rw [hfirst] at hsame
      cases hsame
    | some f =>
      rw [hfirst] at hcount
      dsimp only at hcount
      split at hcount <;> simp only at hcount <;> omega

end

theorem receive_agrees_iff (T : Option EtherType) (running : Bool) (frame : Frame) (timeout : Int)
    {frames : List Frame} {reads : List Read} {polls : List Poll}
    (hmax : ∀ f ∈ frames, f.length ≤ maxFrameSize)
    (hreads : Reads (timeoutMilliseconds timeout) frames reads) (hpolls : Polls frames polls) :
    (∃ o o', stm32Receive T running frame timeout reads = some o ∧
        linuxReceive T running frame timeout polls = some o' ∧ Agree T frame frames o o') ↔
      (frame = [] ∨ timeout < 0) ∨ running = false ∨ Harmless T frame frames := by
  unfold stm32Receive linuxReceive
  by_cases hargument : frame = [] ∨ timeout < 0
  · refine ⟨fun _ => Or.inl hargument, fun _ => ?_⟩
    rw [if_pos hargument, if_pos hargument]
    exact ⟨_, _, rfl, rfl, rfl, rfl, by simp, fun _ => ⟨rfl, rfl⟩⟩
  · rw [if_neg hargument, if_neg hargument]
    cases running with
    | false =>
      exact ⟨fun _ => Or.inr (Or.inl rfl),
        fun _ => ⟨_, _, rfl, rfl, rfl, rfl, by simp, fun _ => ⟨rfl, rfl⟩⟩⟩
    | true =>
      simp only [Bool.not_true, Bool.false_eq_true, if_false, hargument, false_or,
        readLoop_eq hreads hmax, pollLoop_eq hpolls hmax, Option.some.injEq, Bool.true_eq_false]
      rw [← agree_iff]
      constructor
      · rintro ⟨o, o', rfl, rfl, h⟩
        exact h
      · intro h
        exact ⟨_, _, rfl, rfl, h⟩

/-- A frame of this type, with some bytes behind its header. -/
def frameOf (hi lo : UInt8) (payload : List UInt8) : Frame := List.replicate 12 1 ++ [hi, lo] ++ payload

/-- The device hands the frames over in two fragments each. -/
def readsOf (frames : List Frame) : List Read :=
  (frames.map fun f => ⟨[⟨f, 9⟩, ⟨f.drop 9, f.length - 9⟩], 1⟩) ++ [⟨[], 5⟩]

def pollsOf (frames : List Frame) : List Poll :=
  (frames.map fun f => .ready (.packet false f)) ++ [.expired]

theorem reads_readsOf {frames : List Frame} (h : ∀ f ∈ frames, 9 ≤ f.length) :
    Reads 5 frames (readsOf frames) := by
  induction frames with
  | nil => exact .expires rfl rfl
  | cons f frames ih =>
    have hf : 9 ≤ f.length := h f (by simp)
    have hcontents : contents [⟨f, 9⟩, ⟨f.drop 9, f.length - 9⟩] = f := by
      simp [contents, Fragment.bytes, ← List.length_drop]
    have hgives := @Reads.gives 5 _ ⟨[⟨f, 9⟩, ⟨f.drop 9, f.length - 9⟩], 1⟩ _ (by simp)
      (by simp [hf]) rfl (ih fun g hg => h g (List.mem_cons_of_mem f hg))
    rwa [hcontents] at hgives

theorem polls_pollsOf (frames : List Frame) : Polls frames (pollsOf frames) := by
  induction frames with
  | nil => exact .expires
  | cons f frames ih => exact .gives ih

/-- A short frame of another type is discarded, the next frame is returned. -/
theorem receive_agrees_short : ∃ o o',
    stm32Receive (some etherCat) true (List.replicate 20 0) 5
      (readsOf [frameOf 8 6 [2, 3], frameOf 0x88 0xA4 [4, 5, 6, 7]]) = some o ∧
    linuxReceive (some etherCat) true (List.replicate 20 0) 5
      (pollsOf [frameOf 8 6 [2, 3], frameOf 0x88 0xA4 [4, 5, 6, 7]]) = some o' ∧
    Agree (some etherCat) (List.replicate 20 0) [frameOf 8 6 [2, 3], frameOf 0x88 0xA4 [4, 5, 6, 7]]
      o o' := by
  have hreads : Reads (timeoutMilliseconds 5) [frameOf 8 6 [2, 3], frameOf 0x88 0xA4 [4, 5, 6, 7]]
      (readsOf [frameOf 8 6 [2, 3], frameOf 0x88 0xA4 [4, 5, 6, 7]]) := reads_readsOf (by decide)
  exact (receive_agrees_iff _ _ _ _ (by decide) hreads (polls_pollsOf _)).mpr
    (Or.inr (Or.inr ⟨by decide, Or.inl ⟨frameOf 0x88 0xA4 [4, 5, 6, 7], by decide, by decide⟩⟩))

/-- A long frame of another type ends the call on one of them only; a short one alone changes the
buffer there. -/
theorem receive_disagrees :
    (¬ ∃ o o', stm32Receive (some etherCat) true (List.replicate 20 0) 5
          (readsOf [frameOf 8 6 (List.replicate 16 2), frameOf 0x88 0xA4 [4]]) = some o ∧
        linuxReceive (some etherCat) true (List.replicate 20 0) 5
          (pollsOf [frameOf 8 6 (List.replicate 16 2), frameOf 0x88 0xA4 [4]]) = some o' ∧
        Agree (some etherCat) (List.replicate 20 0)
          [frameOf 8 6 (List.replicate 16 2), frameOf 0x88 0xA4 [4]] o o') ∧
      ¬ ∃ o o', stm32Receive (some etherCat) true (List.replicate 20 0) 5
          (readsOf [frameOf 8 6 [2]]) = some o ∧
        linuxReceive (some etherCat) true (List.replicate 20 0) 5 (pollsOf [frameOf 8 6 [2]]) =
          some o' ∧
        Agree (some etherCat) (List.replicate 20 0) [frameOf 8 6 [2]] o o' := by
  constructor
  · rintro ⟨o, o', ho, ho', hagree⟩
    have hresult : o.result = .error .noBufferSpace := by
      cases ho
      rfl
    have hresult' : o'.result = .ok 15 := by
      cases ho'
      rfl
    have hsame := hagree.result
    rw [hresult, hresult'] at hsame
    cases hsame
  · rintro ⟨o, o', ho, -, hagree⟩
    have hresult : o.result = .error .timedOut := by
      cases ho
      rfl
    have hframe : o.frame[0]? = some 1 := by
      cases ho
      rfl
    have hsame := (hagree.unchanged (by simp [hresult])).1
    rw [hsame] at hframe
    exact absurd hframe (by decide)

end SimPLCity.FrameDelivery
