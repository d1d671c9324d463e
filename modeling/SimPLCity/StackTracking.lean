import SimPLCity.WordArithmetic
import Mathlib.Data.List.Basic
import Mathlib.Order.Lattice.Nat

/-! The stack that the Linux port reports to ThreadX: the distance on the host's stack is carried
over to the logical stack, which is smaller. -/

namespace SimPLCity.StackTracking
open WordArithmetic

inductive Error
  | ptrError
  | sizeError
deriving DecidableEq, Repr

/-- A null pointer is 0. -/
structure StackInfo where
  hostStackBase : UInt64
  hostStackSize : UInt64
  baselineHostStackPtr : UInt64 := 0
deriving DecidableEq, Repr

structure Thread where
  threadIdValid : Bool
  stackStart : UInt64
  stackEnd : UInt64
  stackPtr : UInt64
  stackHighestPtr : UInt64
  stackInfo : Option StackInfo
deriving DecidableEq, Repr

/-! `wordSize` is the size of a `ULONG`, which is its alignment too. -/

section
variable (wordSize : UInt64)

def alignDown (address : UInt64) : UInt64 := address &&& ~~~(wordSize - 1)

def logicalStackTop (stackEnd : UInt64) : Accounted UInt64 := do
  let address ← add stackEnd 1
  pure (alignDown wordSize address)

/-- The address for a pointer into the host's stack. -/
def logicalStackAddress (bottom high baseline current : UInt64) : Accounted UInt64 :=
  if current ≥ baseline then pure high
  else do
    let hostStackDelta ← sub baseline current
    let room ← sub high bottom
    if hostStackDelta ≥ room then pure bottom
    else do
      let address ← sub high hostStackDelta
      pure (if alignDown wordSize address < bottom then bottom else alignDown wordSize address)

/-- The thread with a new stack pointer and, if it is lower, a new highest one. -/
def Thread.moved (thread : Thread) (info : StackInfo) (address : UInt64) : Thread :=
  { thread with
    stackInfo := some info
    stackPtr := address
    stackHighestPtr :=
      if thread.stackHighestPtr = 0 ∨ address < thread.stackHighestPtr then address
      else thread.stackHighestPtr }

/-- The first pointer of a thread is its baseline. -/
def StackInfo.based (info : StackInfo) (current : UInt64) : StackInfo :=
  if info.baselineHostStackPtr = 0 then { info with baselineHostStackPtr := current } else info

def updateInfo (thread : Thread) (info : StackInfo) (current : UInt64) :
    Accounted (Option Error × Thread) := do
  let bottom ← add thread.stackStart wordSize
  let top ← logicalStackTop wordSize thread.stackEnd
  let reserve ← mul 2 wordSize
  let least ← add bottom reserve
  if top < least then pure (some .sizeError, thread)
  else do
    let high ← sub top reserve
    let hostStackEnd ← add info.hostStackBase info.hostStackSize
    if current < info.hostStackBase ∨ current ≥ hostStackEnd then pure (some .ptrError, thread)
    else do
      let info := info.based current
      let address ← logicalStackAddress wordSize bottom high info.baselineHostStackPtr current
      pure (none, thread.moved info address)

def update (thread : Thread) (current : UInt64) : Accounted (Option Error × Thread) :=
  if thread.threadIdValid = false ∨ current = 0 ∨ thread.stackStart = 0 ∨ thread.stackEnd = 0 then
    pure (some .ptrError, thread)
  else
    match thread.stackInfo with
    | none => pure (some .ptrError, thread)
    | some info => updateInfo wordSize thread info current

/-- `_tx_linux_thread_stack_calibrate`, on the thread's own stack pointer. -/
def calibrate (thread : Thread) (current : UInt64) : Accounted Thread :=
  match thread.stackInfo with
  | none => pure thread
  | some info => do
    let (error, thread) ← update wordSize
      { thread with stackInfo := some { info with baselineHostStackPtr := current } } current
    pure (if error.isSome then thread else { thread with stackHighestPtr := thread.stackPtr })

inductive Operation
  | calibrate (current : UInt64)
  | update (current : UInt64)
deriving DecidableEq, Repr

def perform (thread : Thread) : Operation → Accounted Thread
  | .calibrate current => calibrate wordSize thread current
  | .update current => do
    let (_, thread) ← update wordSize thread current
    pure thread

def run (thread : Thread) : List Operation → Accounted Thread
  | [] => pure thread
  | operation :: operations => do
    let thread ← perform wordSize thread operation
    run thread operations

end

theorem and_mask {x k : Nat} (hx : x < 2 ^ 64) (hk : k ≤ 64) :
    x &&& (2 ^ 64 - 2 ^ k) = x / 2 ^ k * 2 ^ k := by
  have hmask : 2 ^ 64 - 2 ^ k = 2 ^ 64 - (2 ^ k - 1 + 1) := by
    rw [Nat.sub_add_cancel Nat.one_le_two_pow]
  have hlt : 2 ^ k - 1 < 2 ^ 64 :=
    Nat.lt_of_lt_of_le (Nat.sub_one_lt (Nat.two_pow_pos k).ne') (Nat.pow_le_pow_right (by decide) hk)
  refine Nat.eq_of_testBit_eq fun i => ?_
  rw [Nat.testBit_and, hmask, Nat.testBit_two_pow_sub_succ hlt, Nat.testBit_two_pow_sub_one,
    Nat.testBit_mul_two_pow, Nat.testBit_div_two_pow]
  by_cases hi : i < 64
  · by_cases hik : k ≤ i
    · simp [hi, hik, Nat.not_lt.mpr hik]
    · simp [hik, Nat.not_le.mp hik]
  · have hbit : x.testBit i = false :=
      Nat.testBit_lt_two_pow (hx.trans_le (Nat.pow_le_pow_right (by decide) (by omega)))
    by_cases hik : k ≤ i
    · simp [hbit, hik]
    · simp [hbit, hik]

/-- A word is a power of two of bytes. -/
def WordSize (wordSize : UInt64) : Prop := ∃ k, wordSize.toNat = 2 ^ k

theorem alignDown_toNat {wordSize : UInt64} (h : WordSize wordSize) (address : UInt64) :
    (alignDown wordSize address).toNat =
      address.toNat / wordSize.toNat * wordSize.toNat := by
  obtain ⟨k, hk⟩ := h
  have hlt := wordSize.toNat_lt
  have hone : (1 : UInt64).toNat ≤ wordSize.toNat := by
    rw [hk, UInt64.toNat_one]
    exact Nat.one_le_two_pow
  have hk64 : k ≤ 64 := by
    rw [hk] at hlt
    exact ((Nat.pow_lt_pow_iff_right (by decide)).mp hlt).le
  have hmask : (~~~(wordSize - 1)).toNat = 2 ^ 64 - 2 ^ k := by
    rw [UInt64.toNat_not, UInt64.toNat_sub_of_le _ _ (UInt64.le_iff_toNat_le.mpr hone), hk,
      UInt64.toNat_one]
    have hpos := Nat.two_pow_pos k
    change 2 ^ 64 - 1 - (2 ^ k - 1) = 2 ^ 64 - 2 ^ k
    omega
  rw [alignDown, UInt64.toNat_and, hmask, and_mask address.toNat_lt hk64, hk]

section
variable (wordSize : UInt64) (thread : Thread)

/-- Start plus one word. -/
def logicalBottom : Nat := thread.stackStart.toNat + wordSize.toNat

/-- The end rounded down to whole words, minus two words. -/
def logicalHigh : Nat :=
  (thread.stackEnd.toNat + 1) / wordSize.toNat * wordSize.toNat - 2 * wordSize.toNat

/-- Below the baseline the exact distance, rounded down and clamped. -/
def logicalAddress (baseline current : Nat) : Nat :=
  if baseline ≤ current then logicalHigh wordSize thread
  else max (logicalBottom wordSize thread)
    ((logicalHigh wordSize thread - (baseline - current)) / wordSize.toNat * wordSize.toNat)

/-- A logical stack in the address space that begins with a word and has room for three. -/
structure Area : Prop where
  word : WordSize wordSize
  started : thread.stackStart ≠ 0
  aligned : wordSize.toNat ∣ thread.stackStart.toNat
  size : thread.stackStart.toNat + 3 * wordSize.toNat ≤ thread.stackEnd.toNat + 1
  below : thread.stackEnd.toNat + 1 < 2 ^ 64

end

/-- A pointer into the host's stack. -/
def StackInfo.Inside (info : StackInfo) (current : UInt64) : Prop :=
  current ≠ 0 ∧ info.hostStackBase.toNat ≤ current.toNat ∧
    current.toNat < info.hostStackBase.toNat + info.hostStackSize.toNat

instance (info : StackInfo) (current : UInt64) : Decidable (info.Inside current) :=
  inferInstanceAs (Decidable (current ≠ 0 ∧ info.hostStackBase.toNat ≤ current.toNat ∧
    current.toNat < info.hostStackBase.toNat + info.hostStackSize.toNat))

/-- A thread whose stacks lie in the address space. -/
structure Tracked (wordSize : UInt64) (thread : Thread) (info : StackInfo) : Prop where
  area : Area wordSize thread
  valid : thread.threadIdValid = true
  stackInfo : thread.stackInfo = some info
  host : info.hostStackBase.toNat + info.hostStackSize.toNat < 2 ^ 64

section
variable {wordSize : UInt64} {thread : Thread} {info : StackInfo}

theorem Area.pos (h : Area wordSize thread) : 0 < wordSize.toNat := by
  obtain ⟨k, hk⟩ := h.word
  rw [hk]
  exact Nat.two_pow_pos k

theorem Area.top (h : Area wordSize thread) :
    thread.stackStart.toNat + 3 * wordSize.toNat ≤
      (thread.stackEnd.toNat + 1) / wordSize.toNat * wordSize.toNat := by
  obtain ⟨n, hn⟩ := h.aligned
  have hsize := h.size
  rw [hn] at hsize ⊢
  have hle : n + 3 ≤ (thread.stackEnd.toNat + 1) / wordSize.toNat := by
    rw [Nat.le_div_iff_mul_le h.pos, Nat.mul_comm, Nat.mul_add]
    omega
  calc wordSize.toNat * n + 3 * wordSize.toNat
      = (n + 3) * wordSize.toNat := by rw [Nat.mul_comm wordSize.toNat, Nat.add_mul]
    _ ≤ _ := Nat.mul_le_mul_right _ hle

theorem Area.bottom_le (h : Area wordSize thread) :
    logicalBottom wordSize thread ≤ logicalHigh wordSize thread := by
  have htop := h.top
  unfold logicalBottom logicalHigh
  omega

theorem logicalAddress_bounds (h : Area wordSize thread) (baseline current : Nat) :
    logicalBottom wordSize thread ≤ logicalAddress wordSize thread baseline current ∧
      logicalAddress wordSize thread baseline current ≤ logicalHigh wordSize thread := by
  have hle := h.bottom_le
  unfold logicalAddress
  split
  · exact ⟨hle, le_refl _⟩
  · refine ⟨le_max_left .., max_le hle ?_⟩
    exact (Nat.div_mul_le_self ..).trans (Nat.sub_le ..)

theorem logicalAddress_aligned (h : Area wordSize thread) (baseline current : Nat) :
    wordSize.toNat ∣ logicalAddress wordSize thread baseline current := by
  have hbottom : wordSize.toNat ∣ logicalBottom wordSize thread :=
    Nat.dvd_add h.aligned (dvd_refl _)
  unfold logicalAddress
  split
  · exact Nat.dvd_sub (Nat.dvd_mul_left ..) (Nat.dvd_mul_left ..)
  · rcases max_choice (logicalBottom wordSize thread)
      ((logicalHigh wordSize thread - (baseline - current)) / wordSize.toNat * wordSize.toNat) with
      heq | heq
    · rwa [heq]
    · rw [heq]
      exact Nat.dvd_mul_left ..

theorem logicalAddress_mono (h : Area wordSize thread) (baseline : Nat) {deeper current : Nat}
    (hle : deeper ≤ current) :
    logicalAddress wordSize thread baseline deeper ≤
      logicalAddress wordSize thread baseline current := by
  have hhigh := (logicalAddress_bounds h baseline deeper).2
  unfold logicalAddress at hhigh ⊢
  split
  · rw [if_pos (by omega)]
  · rename_i hbelow
    rw [if_neg hbelow] at hhigh
    split
    · exact hhigh
    · exact max_le_max (le_refl _) (Nat.mul_le_mul_right _ (Nat.div_le_div_right (by omega)))

theorem logicalStackAddress_spec (hword : WordSize wordSize) {bottom high baseline current : UInt64}
    (hle : bottom.toNat ≤ high.toNat) :
    Yields (logicalStackAddress wordSize bottom high baseline current) fun address =>
      address.toNat = if baseline.toNat ≤ current.toNat then high.toNat
        else max bottom.toNat ((high.toNat - (baseline.toNat - current.toNat)) / wordSize.toNat *
          wordSize.toNat) := by
  unfold logicalStackAddress
  by_cases habove : current ≥ baseline
  · rw [if_pos habove, if_pos (UInt64.le_iff_toNat_le.mp habove)]
    exact .pure rfl
  · have hbelow : ¬ baseline.toNat ≤ current.toNat := mt UInt64.le_iff_toNat_le.mpr habove
    rw [if_neg habove, if_neg hbelow]
    refine .bind (.sub (by omega)) fun delta hdelta => ?_
    refine .bind (.sub hle) fun room hroom => ?_
    rw [← hdelta]
    split
    · rename_i hdeep
      rw [ge_iff_le, UInt64.le_iff_toNat_le] at hdeep
      refine .pure (Eq.symm (max_eq_left ?_))
      exact (Nat.div_mul_le_self ..).trans (by omega)
    · rename_i hshallow
      rw [ge_iff_le, UInt64.le_iff_toNat_le] at hshallow
      refine .bind (.sub (by omega)) fun address haddress => .pure ?_
      rw [← haddress, ← alignDown_toNat hword]
      split
      · rename_i hlow
        rw [UInt64.lt_iff_toNat_lt] at hlow
        exact (max_eq_left hlow.le).symm
      · rename_i hhigh
        rw [UInt64.lt_iff_toNat_lt, Nat.not_lt] at hhigh
        exact (max_eq_right hhigh).symm

@[simp] theorem based_hostStackBase (current : UInt64) :
    (info.based current).hostStackBase = info.hostStackBase := by
  unfold StackInfo.based
  split <;> rfl

@[simp] theorem based_hostStackSize (current : UInt64) :
    (info.based current).hostStackSize = info.hostStackSize := by
  unfold StackInfo.based
  split <;> rfl

/-- What an update does. -/
def Updates (wordSize : UInt64) (thread : Thread) (info : StackInfo) (current : UInt64)
    (result : Option Error × Thread) : Prop :=
  if info.Inside current then
    ∃ address : UInt64, address.toNat = logicalAddress wordSize thread
        (info.based current).baselineHostStackPtr.toNat current.toNat ∧
      result = (none, thread.moved (info.based current) address)
  else result = (some .ptrError, thread)

theorem updates_inside {current address : UInt64} (hin : info.Inside current)
    (h : address.toNat = logicalAddress wordSize thread
      (info.based current).baselineHostStackPtr.toNat current.toNat) :
    Updates wordSize thread info current (none, thread.moved (info.based current) address) := by
  unfold Updates
  rw [if_pos hin]
  exact ⟨address, h, rfl⟩

theorem updates_outside {current : UInt64} (hout : ¬ info.Inside current) :
    Updates wordSize thread info current (some .ptrError, thread) := by
  unfold Updates
  rw [if_neg hout]

theorem updateInfo_spec (h : Area wordSize thread)
    (hhost : info.hostStackBase.toNat + info.hostStackSize.toNat < 2 ^ 64) {current : UInt64}
    (hcurrent : current ≠ 0) :
    Yields (updateInfo wordSize thread info current) (Updates wordSize thread info current) := by
  have hpos := h.pos
  have htop := h.top
  have hbelow := h.below
  have hrounded := Nat.div_mul_le_self (thread.stackEnd.toNat + 1) wordSize.toNat
  have htwo : (2 : UInt64).toNat = 2 := rfl
  refine .bind (.add (by omega)) fun bottom hbottom => ?_
  have htopSpec : Yields (logicalStackTop wordSize thread.stackEnd) fun top =>
      top.toNat = (thread.stackEnd.toNat + 1) / wordSize.toNat * wordSize.toNat := by
    refine .bind (.add (by rw [UInt64.toNat_one]; omega)) fun address haddress => .pure ?_
    rw [alignDown_toNat h.word, haddress, UInt64.toNat_one]
  refine .bind htopSpec fun top htopValue => ?_
  refine .bind (.mul (by rw [htwo]; omega)) fun reserve hreserve => ?_
  rw [htwo] at hreserve
  refine .bind (.add (by omega)) fun least hleast => ?_
  rw [if_neg (by rw [UInt64.lt_iff_toNat_lt]; omega)]
  refine .bind (.sub (by omega)) fun high hhigh => ?_
  refine .bind (.add (by omega)) fun hostStackEnd hend => ?_
  have hinside : ¬ (current < info.hostStackBase ∨ current ≥ hostStackEnd) ↔
      info.Inside current := by
    rw [not_or, UInt64.not_lt, ge_iff_le, UInt64.not_le, UInt64.le_iff_toNat_le,
      UInt64.lt_iff_toNat_lt, hend]
    exact ⟨fun hin => ⟨hcurrent, hin⟩, And.right⟩
  by_cases hin : info.Inside current
  · rw [if_neg (hinside.mpr hin)]
    refine .bind (logicalStackAddress_spec h.word (by omega)) fun address haddress =>
      .pure (updates_inside hin ?_)
    rw [haddress, logicalAddress, logicalHigh, logicalBottom, hbottom, hhigh, htopValue, hreserve]
  · rw [if_pos (not_not.mp (mt hinside.mp hin))]
    exact .pure (updates_outside hin)

theorem update_spec (h : Tracked wordSize thread info) (current : UInt64) :
    Yields (update wordSize thread current) (Updates wordSize thread info current) := by
  have hend : thread.stackEnd ≠ 0 := by
    have hsize := h.area.size
    have hpos := h.area.pos
    rintro hzero
    rw [hzero, UInt64.toNat_zero] at hsize
    omega
  unfold update
  by_cases hcurrent : current = 0
  · rw [if_pos (by simp [hcurrent])]
    exact .pure (updates_outside fun hin => hin.1 hcurrent)
  · rw [if_neg (by simp [h.valid, hcurrent, h.area.started, hend]), h.stackInfo]
    exact updateInfo_spec h.area h.host hcurrent

theorem update_rejected (wordSize : UInt64) (thread : Thread) (current : UInt64) :
    (update wordSize thread current).value.1 ≠ none →
      (update wordSize thread current).value.2 = thread := by
  unfold update
  split
  · exact fun _ => rfl
  · split
    · exact fun _ => rfl
    · unfold updateInfo
      simp only [bind_value]
      split
      · exact fun _ => rfl
      · simp only [bind_value]
        split
        · exact fun _ => rfl
        · exact fun herror => absurd rfl herror

theorem Area.of_same {thread' : Thread} (h : Area wordSize thread)
    (hstart : thread'.stackStart = thread.stackStart) (hend : thread'.stackEnd = thread.stackEnd) :
    Area wordSize thread' where
  word := h.word
  started := by rw [hstart]; exact h.started
  aligned := by rw [hstart]; exact h.aligned
  size := by rw [hstart, hend]; exact h.size
  below := by rw [hend]; exact h.below

/-- The logical stack and the host's stack stay where they are. -/
structure Same (wordSize : UInt64) (thread thread' : Thread) (info : StackInfo) : Prop where
  stackStart : thread'.stackStart = thread.stackStart
  stackEnd : thread'.stackEnd = thread.stackEnd
  tracked : ∃ baseline, Tracked wordSize thread' { info with baselineHostStackPtr := baseline }

theorem Same.trans {thread' thread'' : Thread} {baseline : UInt64}
    (h : Same wordSize thread thread' info)
    (h' : Same wordSize thread' thread'' { info with baselineHostStackPtr := baseline }) :
    Same wordSize thread thread'' info :=
  ⟨h'.stackStart.trans h.stackStart, h'.stackEnd.trans h.stackEnd, h'.tracked⟩

theorem Tracked.moved (h : Tracked wordSize thread info) (info' : StackInfo) (address : UInt64)
    (hbase : info'.hostStackBase = info.hostStackBase)
    (hsize : info'.hostStackSize = info.hostStackSize) :
    Tracked wordSize (thread.moved info' address) info' :=
  ⟨h.area.of_same rfl rfl, h.valid, rfl, by rw [hbase, hsize]; exact h.host⟩

theorem Tracked.moved_based (h : Tracked wordSize thread info) (current address : UInt64) :
    Tracked wordSize (thread.moved (info.based current) address) (info.based current) :=
  h.moved _ _ (based_hostStackBase current) (based_hostStackSize current)

theorem based_eq (info : StackInfo) (current : UInt64) :
    ∃ baseline, info.based current = { info with baselineHostStackPtr := baseline } := by
  unfold StackInfo.based
  split
  · exact ⟨_, rfl⟩
  · exact ⟨info.baselineHostStackPtr, rfl⟩

theorem updates_same (h : Tracked wordSize thread info) {current : UInt64}
    {result : Option Error × Thread} (hresult : Updates wordSize thread info current result) :
    Same wordSize thread result.2 info := by
  unfold Updates at hresult
  split at hresult
  · obtain ⟨address, -, rfl⟩ := hresult
    obtain ⟨baseline, hbaseline⟩ := based_eq info current
    have hmoved := h.moved_based current address
    rw [hbaseline] at hmoved
    refine ⟨rfl, rfl, baseline, ?_⟩
    rw [hbaseline]
    exact hmoved
  · subst hresult
    exact ⟨rfl, rfl, info.baselineHostStackPtr, h⟩

theorem Tracked.rebased (h : Tracked wordSize thread info) (current : UInt64) :
    Tracked wordSize
      { thread with stackInfo := some { info with baselineHostStackPtr := current } }
      { info with baselineHostStackPtr := current } :=
  ⟨h.area.of_same rfl rfl, h.valid, rfl, h.host⟩

theorem perform_same (h : Tracked wordSize thread info) (operation : Operation) :
    Yields (perform wordSize thread operation) fun thread' =>
      Same wordSize thread thread' info := by
  cases operation with
  | update current =>
    exact .bind (update_spec h current) fun result hresult => .pure (updates_same h hresult)
  | calibrate current =>
    unfold perform calibrate
    dsimp only
    rw [h.stackInfo]
    refine .bind (update_spec (h.rebased current) current) fun result hresult => .pure ?_
    obtain ⟨hstart, hend, baseline, htracked⟩ := updates_same (h.rebased current) hresult
    split
    · exact ⟨hstart, hend, baseline, htracked⟩
    · exact ⟨hstart, hend, baseline, htracked.area.of_same rfl rfl, htracked.valid,
        htracked.stackInfo, htracked.host⟩

theorem run_same (h : Tracked wordSize thread info) (operations : List Operation) :
    Yields (run wordSize thread operations) fun thread' => Same wordSize thread thread' info := by
  induction operations generalizing thread info with
  | nil => exact .pure ⟨rfl, rfl, info.baselineHostStackPtr, h⟩
  | cons operation operations ih =>
    refine .bind (perform_same h operation) fun thread' hsame => ?_
    obtain ⟨baseline, htracked⟩ := hsame.tracked
    exact (ih htracked).mono fun _ hsame' => hsame.trans hsame'

theorem moved_highest (info : StackInfo) (h : Area wordSize thread) (hhighest : thread.stackHighestPtr ≠ 0)
    {address : UInt64} {baseline current : Nat}
    (haddress : address.toNat = logicalAddress wordSize thread baseline current) :
    (thread.moved info address).stackHighestPtr.toNat =
        min thread.stackHighestPtr.toNat (logicalAddress wordSize thread baseline current) ∧
      (thread.moved info address).stackHighestPtr ≠ 0 := by
  have hbounds := (logicalAddress_bounds h baseline current).1
  have hpos := h.pos
  have hnonzero : address ≠ 0 := by
    rintro rfl
    rw [UInt64.toNat_zero] at haddress
    unfold logicalBottom at hbounds
    omega
  rw [← haddress]
  unfold Thread.moved
  dsimp only
  split
  · rename_i hlower
    have hlt := UInt64.lt_iff_toNat_lt.mp (hlower.resolve_left hhighest)
    exact ⟨by rw [Nat.min_eq_right hlt.le], hnonzero⟩
  · rename_i hkept
    rw [not_or, UInt64.not_lt, UInt64.le_iff_toNat_le] at hkept
    exact ⟨by rw [Nat.min_eq_left hkept.2], hhighest⟩

/-- What the updates with the pointers report, from the first to the last. -/
def reported (wordSize : UInt64) (thread : Thread) (info : StackInfo) (baseline : UInt64)
    (pointers : List UInt64) : List Nat :=
  (pointers.filter fun current => info.Inside current).map fun current =>
    logicalAddress wordSize thread baseline.toNat current.toNat

theorem reported_congr {thread' : Thread} (hstart : thread'.stackStart = thread.stackStart)
    (hend : thread'.stackEnd = thread.stackEnd) (baseline baseline' : UInt64)
    (pointers : List UInt64) :
    reported wordSize thread' { info with baselineHostStackPtr := baseline' } baseline pointers =
      reported wordSize thread info baseline pointers := by
  unfold reported logicalAddress logicalHigh logicalBottom
  rw [hstart, hend]
  rfl

theorem run_highest (h : Tracked wordSize thread info) (hbaseline : info.baselineHostStackPtr ≠ 0)
    (hhighest : thread.stackHighestPtr ≠ 0) (pointers : List UInt64) :
    (run wordSize thread (pointers.map .update)).value.stackHighestPtr.toNat =
      (reported wordSize thread info info.baselineHostStackPtr pointers).foldl min
        thread.stackHighestPtr.toNat := by
  induction pointers generalizing thread with
  | nil => rfl
  | cons current pointers ih =>
    have hbased : info.based current = info := by
      unfold StackInfo.based
      rw [if_neg hbaseline]
    have hupdate := (update_spec h current).1
    change (run wordSize (update wordSize thread current).value.2
      (pointers.map .update)).value.stackHighestPtr.toNat = _
    unfold Updates at hupdate
    unfold reported
    by_cases hin : info.Inside current
    · rw [if_pos hin] at hupdate
      obtain ⟨address, haddress, hresult⟩ := hupdate
      rw [hbased] at haddress hresult
      obtain ⟨hmin, hnonzero⟩ := moved_highest info h.area hhighest haddress
      rw [hresult, ih (h.moved info address rfl rfl) hnonzero, hmin,
        List.filter_cons_of_pos (by simpa using hin)]
      rfl
    · rw [if_neg hin] at hupdate
      rw [hupdate, ih h hhighest, List.filter_cons_of_neg (by simpa using hin)]
      rfl

theorem calibrate_spec (h : Tracked wordSize thread info) {current : UInt64}
    (hin : info.Inside current) :
    Tracked wordSize (calibrate wordSize thread current).value
        { info with baselineHostStackPtr := current } ∧
      (calibrate wordSize thread current).value.stackStart = thread.stackStart ∧
      (calibrate wordSize thread current).value.stackEnd = thread.stackEnd ∧
      (calibrate wordSize thread current).value.stackHighestPtr.toNat =
        logicalHigh wordSize thread := by
  have hupdate := (update_spec (h.rebased current) current).1
  unfold Updates at hupdate
  rw [if_pos (show StackInfo.Inside { info with baselineHostStackPtr := current } current from hin)]
    at hupdate
  obtain ⟨address, haddress, hresult⟩ := hupdate
  have hbased : StackInfo.based { info with baselineHostStackPtr := current } current =
      { info with baselineHostStackPtr := current } := by
    unfold StackInfo.based
    rw [if_neg hin.1]
  rw [hbased] at haddress hresult
  have hvalue : (calibrate wordSize thread current).value =
      { (Thread.moved { thread with stackInfo := some { info with baselineHostStackPtr := current } }
        { info with baselineHostStackPtr := current } address) with stackHighestPtr := address } := by
    unfold calibrate
    rw [h.stackInfo]
    dsimp only
    rw [bind_value, hresult]
    rfl
  rw [hvalue]
  refine ⟨⟨h.area.of_same rfl rfl, h.valid, rfl, h.host⟩, rfl, rfl, ?_⟩
  exact haddress.trans (if_pos (le_refl _))

/-- What an update of a thread reports. -/
structure Reports (wordSize : UInt64) (thread : Thread) (info : StackInfo) (current : UInt64) :
    Prop where
  exact : (update wordSize thread current).exact = true
  accepted : (update wordSize thread current).value.1 = none ↔ info.Inside current
  rejected : (update wordSize thread current).value.1 ≠ none →
    (update wordSize thread current).value.2 = thread
  address : info.Inside current →
    (update wordSize thread current).value.2.stackPtr.toNat = logicalAddress wordSize thread
      (info.based current).baselineHostStackPtr.toNat current.toNat
  aligned : info.Inside current →
    wordSize.toNat ∣ (update wordSize thread current).value.2.stackPtr.toNat
  bounds : info.Inside current →
    logicalBottom wordSize thread ≤ (update wordSize thread current).value.2.stackPtr.toNat ∧
      (update wordSize thread current).value.2.stackPtr.toNat ≤ logicalHigh wordSize thread
  deeper : ∀ deeper, info.Inside current → info.Inside deeper → deeper ≤ current →
    (update wordSize thread deeper).value.2.stackPtr ≤
      (update wordSize thread current).value.2.stackPtr

theorem update_address (h : Tracked wordSize thread info) {current : UInt64}
    (hin : info.Inside current) :
    (update wordSize thread current).value.1 = none ∧
      (update wordSize thread current).value.2.stackPtr.toNat = logicalAddress wordSize thread
        (info.based current).baselineHostStackPtr.toNat current.toNat := by
  have hupdate := (update_spec h current).1
  unfold Updates at hupdate
  rw [if_pos hin] at hupdate
  obtain ⟨address, haddress, hresult⟩ := hupdate
  rw [hresult]
  exact ⟨rfl, haddress⟩

theorem reports (h : Tracked wordSize thread info) (current : UInt64) :
    Reports wordSize thread info current where
  exact := (update_spec h current).2
  accepted := by
    refine ⟨fun hnone => ?_, fun hin => (update_address h hin).1⟩
    by_contra hout
    have hupdate := (update_spec h current).1
    unfold Updates at hupdate
    rw [if_neg hout] at hupdate
    rw [hupdate] at hnone
    cases hnone
  rejected := update_rejected wordSize thread current
  address hin := (update_address h hin).2
  aligned hin := by
    rw [(update_address h hin).2]
    exact logicalAddress_aligned h.area _ _
  bounds hin := by
    rw [(update_address h hin).2]
    exact logicalAddress_bounds h.area _ _
  deeper deeper hin hdeeper hle := by
    rw [UInt64.le_iff_toNat_le, (update_address h hin).2, (update_address h hdeeper).2]
    by_cases hbaseline : info.baselineHostStackPtr = 0
    · -- both pointers become the baseline
      have hbased : ∀ pointer, (info.based pointer).baselineHostStackPtr = pointer := by
        intro pointer
        unfold StackInfo.based
        rw [if_pos hbaseline]
      rw [hbased, hbased]
      unfold logicalAddress
      rw [if_pos (le_refl _), if_pos (le_refl _)]
    · have hbased : ∀ pointer, info.based pointer = info := by
        intro pointer
        unfold StackInfo.based
        rw [if_neg hbaseline]
      rw [hbased, hbased]
      exact logicalAddress_mono h.area _ (UInt64.le_iff_toNat_le.mp hle)

end

theorem stack_tracked (wordSize : UInt64) (thread : Thread) (info : StackInfo)
    (h : Tracked wordSize thread info) (operations : List Operation) :
    Yields (run wordSize thread operations) fun thread' =>
      thread'.stackStart = thread.stackStart ∧ thread'.stackEnd = thread.stackEnd ∧
        ∃ baseline, Tracked wordSize thread' { info with baselineHostStackPtr := baseline } ∧
          (∀ current,
            Reports wordSize thread' { info with baselineHostStackPtr := baseline } current) ∧
          ∀ calibrated, info.Inside calibrated → ∀ pointers,
            (run wordSize thread'
              (.calibrate calibrated :: pointers.map .update)).value.stackHighestPtr.toNat =
                (reported wordSize thread info calibrated pointers).foldl min
                  (logicalHigh wordSize thread) := by
  refine (run_same h operations).mono fun thread' hsame => ?_
  obtain ⟨hstart, hend, baseline, htracked⟩ := hsame
  refine ⟨hstart, hend, baseline, htracked, fun current => reports htracked current,
    fun calibrated hin pointers => ?_⟩
  obtain ⟨hcalibrated, hstart', hend', hhighest⟩ := calibrate_spec htracked
    (show StackInfo.Inside { info with baselineHostStackPtr := baseline } calibrated from hin)
  have hhigh : logicalHigh wordSize thread' = logicalHigh wordSize thread := by
    unfold logicalHigh
    rw [hend]
  have hnonzero : (calibrate wordSize thread' calibrated).value.stackHighestPtr ≠ 0 := by
    intro hzero
    have hbottom := h.area.bottom_le
    have hpos := h.area.pos
    rw [hzero, UInt64.toNat_zero, hhigh] at hhighest
    unfold logicalBottom at hbottom
    omega
  have hrun := run_highest hcalibrated hin.1 hnonzero pointers
  rw [hhighest, hhigh, reported_congr (hstart'.trans hstart) (hend'.trans hend)] at hrun
  exact hrun

/-- A thread with a logical stack of sixteen words and a page of the host's stack. -/
def pageThread : Thread where
  threadIdValid := true
  stackStart := 0x1000
  stackEnd := 0x103F
  stackPtr := 0
  stackHighestPtr := 0
  stackInfo := some ⟨0x7000, 0x1000, 0⟩

theorem stack_tracked_page :
    Yields (run 4 pageThread [.calibrate 0x7F00]) fun thread' =>
      thread'.stackStart = 0x1000 ∧ thread'.stackEnd = 0x103F ∧
        ∃ baseline, Tracked 4 thread' ⟨0x7000, 0x1000, baseline⟩ ∧
          (∀ current, Reports 4 thread' ⟨0x7000, 0x1000, baseline⟩ current) ∧
          ∀ calibrated, StackInfo.Inside ⟨0x7000, 0x1000, 0⟩ calibrated → ∀ pointers,
            (run 4 thread'
              (.calibrate calibrated :: pointers.map .update)).value.stackHighestPtr.toNat =
                (reported 4 pageThread ⟨0x7000, 0x1000, 0⟩ calibrated pointers).foldl min
                  (logicalHigh 4 pageThread) :=
  stack_tracked 4 pageThread ⟨0x7000, 0x1000, 0⟩
    ⟨⟨⟨2, rfl⟩, by decide, by decide, by decide, by decide⟩, rfl, rfl, by decide⟩
    [.calibrate 0x7F00]

end SimPLCity.StackTracking
