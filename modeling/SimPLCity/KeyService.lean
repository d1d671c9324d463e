import SimPLCity.ThreadKeys

/-! What thread-specific keys are for: every creation of a key is another one, and each thread has
a value of its own under each creation. The keys of the runtime do the same as long as no handle
and no stored value is 2 ^ 24 - 1 creations of its slot old. -/

namespace SimPLCity.KeyService
open ThreadKeys

structure Service where
  live : Nat → Bool := fun _ => false
  creations : Nat → Nat := fun _ => 0
  destructor : Creation → Option Destructor := fun _ => none
  value : ThreadId → Creation → Option Value := fun _ _ => none
  scan : ThreadId → Scan := fun _ => .idle

def start : Service := {}

/-- The last creation of a slot. -/
def Service.current (v : Service) (i : Nat) : Creation := ⟨i, v.creations i⟩

/-- The creation is the last one of its slot and is not deleted. -/
def Service.has (v : Service) (c : Creation) : Bool := v.live c.index && v.creations c.index = c.serial

def Service.store (v : Service) (t : ThreadId) (c : Creation) (x : Option Value) : Service :=
  { v with value := Function.update v.value t (Function.update (v.value t) c x) }

def create (v : Service) (destructor : Option Destructor) : Service × Answer :=
  match (List.range runtimeThreadKeyCount).find? fun i => !v.live i with
  | some i =>
    let c : Creation := ⟨i, v.creations i + 1⟩
    ({ v with
        live := Function.update v.live i true
        creations := Function.update v.creations i c.serial
        destructor := Function.update v.destructor c destructor },
      .key c.handle)
  | none => (v, .error eagain)

def delete (v : Service) (c : Creation) : Service × Answer :=
  if v.has c then ({ v with live := Function.update v.live c.index false }, .done)
  else (v, .error einval)

def get (v : Service) (t : ThreadId) (c : Creation) : Service × Answer :=
  (v, .value (if v.has c then v.value t c else none))

def set (v : Service) (t : ThreadId) (c : Creation) (x : Option Value) : Service × Answer :=
  if v.has c then (v.store t c x, .done) else (v, .error einval)

/-- The thread looks at the keys in turn, and calls the destructor of the creation that it has
seen with its value under that creation. -/
def destroy (v : Service) (t : ThreadId) : Service × Answer :=
  let go (place : Scan) : Service := { v with scan := Function.update v.scan t place }
  match v.scan t with
  | .idle => (go (.fetch 0 0 false), .nothing)
  | .fetch pass i invoked =>
    (go (.fetched pass i invoked (if v.live i then v.destructor (v.current i) else none)
      (v.creations i)), .nothing)
  | .fetched pass i invoked destructor serial =>
    match destructor, v.value t ⟨i, serial⟩ with
    | some d, some x => ((go (.next pass i true)).store t ⟨i, serial⟩ none, .called d x)
    | _, _ => (go (.next pass i invoked), .nothing)
  | .finished => (v, .nothing)

def serve (v : Service) : Action → Service × Answer
  | .create t destructor => if (v.scan t).calls then create v destructor else (v, .nothing)
  | .delete t c => if (v.scan t).calls then delete v c else (v, .nothing)
  | .get t c => if (v.scan t).calls then get v t c else (v, .nothing)
  | .set t c x => if (v.scan t).calls then set v t c x else (v, .nothing)
  | .scan t => destroy v t

def serviceStep (v : Service) (i : Action) : Service := (serve v i).1

def serviceAnswer (v : Service) (i : Action) : Answer := (serve v i).2

/-- The number of creations after which a slot has the same generation again. -/
abbrev period : Nat := 2 ^ 24 - 1

theorem nextGeneration_eq (n : Nat) (h : n < 2 ^ 24) :
    nextGeneration n = if n + 1 = 2 ^ 24 then 1 else n + 1 := by
  have hand : (n + 1) &&& 0xFFFFFF = (n + 1) % 2 ^ 24 := Nat.and_two_pow_sub_one_eq_mod (n + 1) 24
  unfold nextGeneration
  rw [hand]
  split <;> split <;> omega

theorem generationOf_succ (n : Nat) : generationOf (n + 1) = n % period + 1 := by
  induction n with
  | zero => rfl
  | succ n ih =>
    have hstep : generationOf (n + 2) = nextGeneration (generationOf (n + 1)) :=
      Function.iterate_succ_apply' ..
    simp only [period] at ih ⊢
    rw [hstep, ih, nextGeneration_eq _ (by omega)]
    split <;> omega

theorem generationOf_injective {m n : Nat} (hm : 0 < m) (hmn : m ≤ n) (hn : n < m + period)
    (h : generationOf m = generationOf n) : m = n := by
  obtain ⟨m, rfl⟩ := Nat.exists_eq_succ_of_ne_zero (Nat.pos_iff_ne_zero.mp hm)
  obtain ⟨n, rfl⟩ := Nat.exists_eq_succ_of_ne_zero (by omega : n ≠ 0)
  rw [Nat.succ_eq_add_one, Nat.succ_eq_add_one, generationOf_succ, generationOf_succ] at h
  simp only [period] at h hn
  omega

theorem generationOf_bounds {n : Nat} (hn : 0 < n) : 0 < generationOf n ∧ generationOf n < 2 ^ 24 := by
  obtain ⟨n, rfl⟩ := Nat.exists_eq_succ_of_ne_zero (Nat.pos_iff_ne_zero.mp hn)
  rw [Nat.succ_eq_add_one, generationOf_succ]
  simp only [period]
  omega

theorem key_makeKey {i g : Nat} (hi : i < runtimeThreadKeyCount) (hg : g < 2 ^ 24) :
    keyIndex (makeKey i g) = i ∧ keyGeneration (makeKey i g) = g := by
  have heq : makeKey i g = g * 256 + i := by
    have hi : i < 2 ^ 8 := Nat.lt_trans hi (by decide)
    rw [makeKey, ← Nat.shiftLeft_add_eq_or_of_lt hi, Nat.shiftLeft_eq]
    omega
  have hand : keyIndex (makeKey i g) = makeKey i g % 2 ^ 8 := Nat.and_two_pow_sub_one_eq_mod _ 8
  have hi : i < 16 := hi
  rw [hand, keyGeneration, Nat.shiftRight_eq_div_pow, heq]
  omega

/-- The definition of a slot is that of its last creation. -/
structure Slot (s : Keys) (v : Service) (i : Nat) : Prop where
  creations : v.creations i = s.creations i
  live : v.live i = (s.keys i).allocated
  generation : (s.keys i).generation = generationOf (s.creations i)
  destructor : (s.keys i).allocated = true →
    (s.keys i).destructor = v.destructor (v.current i) ∧ 0 < s.creations i
  unused : runtimeThreadKeyCount ≤ i → s.creations i = 0

/-- What a thread has stored in a slot is its value under the creation that it stored it under; it
has none under the last creation, or a later one, if it has not stored it under that. -/
structure Stored (s : Keys) (v : Service) (t : ThreadId) (i : Nat) : Prop where
  generation : s.generations t i = generationOf (s.latest t i)
  value : s.values t i = v.value t ⟨i, s.latest t i⟩
  latest : s.latest t i ≤ s.creations i
  never : s.latest t i = 0 → s.values t i = none
  other : ∀ n, n ≠ s.latest t i → s.creations i ≤ n → v.value t ⟨i, n⟩ = none

/-- The two are at the same place; the generation that was read is that of the creation. -/
inductive SamePlace (s : Keys) (v : Service) (t : ThreadId) : Scan → Scan → Prop
  | same {p} (h : ∀ pass i invoked destructor stamp, p ≠ .fetched pass i invoked destructor stamp) :
      SamePlace s v t p p
  | fetched {pass i invoked destructor serial} (hle : serial ≤ s.creations i)
      (hlatest : s.latest t i ≤ serial)
      (hpos : destructor ≠ none → 0 < serial)
      (hother : serial ≠ s.latest t i → v.value t ⟨i, serial⟩ = none) :
      SamePlace s v t (.fetched pass i invoked destructor (generationOf serial))
        (.fetched pass i invoked destructor serial)

structure Matches (s : Keys) (v : Service) : Prop where
  slots : ∀ i, Slot s v i
  stored : ∀ t i, Stored s v t i
  scan : ∀ t, SamePlace s v t (s.scan t) (v.scan t)

/-- The creation is less than a period of creations of its slot old. -/
def Recent (s : Keys) (c : Creation) : Prop :=
  0 < c.serial ∧ c.serial ≤ s.creations c.index ∧ s.creations c.index < c.serial + period

/-- What the thread has stored in the slot is not older than that. -/
def RecentlyStored (s : Keys) (t : ThreadId) (i : Nat) : Prop :=
  s.latest t i = 0 ∨ s.creations i < s.latest t i + period

/-- The condition on a step: the handle and the value that it uses are recent. -/
def UsesRecent (s : Keys) : Action → Prop
  | .create _ _ => True
  | .delete _ c | .set _ c _ => Recent s c
  | .get t c => Recent s c ∧ RecentlyStored s t c.index
  | .scan t =>
    match s.scan t with
    | .fetched _ i _ _ _ => RecentlyStored s t i
    | _ => True

section
variable {s : Keys} {v : Service} {c : Creation} {t : ThreadId} {i : Nat}

theorem Slot.index_lt (h : Slot s v c.index) (hr : Recent s c) : c.index < runtimeThreadKeyCount := by
  by_contra hlt
  have h0 := h.unused (Nat.le_of_not_lt hlt)
  have h1 := hr.1
  have h2 := hr.2.1
  omega

theorem Slot.has_iff (h : Slot s v c.index) (hr : Recent s c) :
    keyIndex c.handle = c.index ∧ keyGeneration c.handle = generationOf c.serial ∧
      s.has c.handle = v.has c := by
  obtain ⟨hpos, hle, hlt⟩ := hr
  obtain ⟨hgpos, hglt⟩ := generationOf_bounds hpos
  obtain ⟨hindex, hgeneration⟩ := key_makeKey (h.index_lt ⟨hpos, hle, hlt⟩) hglt
  refine ⟨hindex, hgeneration, ?_⟩
  have hsame : generationOf (s.creations c.index) = generationOf c.serial ↔
      s.creations c.index = c.serial :=
    ⟨fun heq => (generationOf_injective hpos hle hlt heq.symm).symm, fun heq => by rw [heq]⟩
  have hindexlt := h.index_lt ⟨hpos, hle, hlt⟩
  simp only [Keys.has, Creation.handle, hindex, hgeneration, Service.has, h.live, h.generation,
    h.creations, hsame, hindexlt, decide_true, Bool.true_and]
  simp [Nat.pos_iff_ne_zero.mp hgpos]

theorem matches_start : Matches initial start where
  slots := fun i => ⟨rfl, rfl, rfl, by simp [initial], fun _ => rfl⟩
  stored := fun t i => ⟨rfl, rfl, Nat.le_refl _, fun _ => rfl, fun _ _ _ => rfl⟩
  scan := fun t => .same (by simp [initial])

theorem SamePlace.calls {p q : Scan} (h : SamePlace s v t p q) : q.calls = p.calls := by
  cases h <;> rfl

theorem matches_create (h : Matches s v) (destructor : Option Destructor) :
    Matches (keyCreate s destructor).1 (create v destructor).1 ∧
      (keyCreate s destructor).2 = (create v destructor).2 := by
  have hfind : ((List.range runtimeThreadKeyCount).find? fun i => !v.live i) =
      (List.range runtimeThreadKeyCount).find? fun i => !(s.keys i).allocated :=
    congrArg (fun f => (List.range runtimeThreadKeyCount).find? f)
      (funext fun i => by rw [(h.slots i).live])
  unfold keyCreate create
  rw [hfind]
  cases hf : (List.range runtimeThreadKeyCount).find? fun i => !(s.keys i).allocated with
  | none => exact ⟨h, rfl⟩
  | some i =>
    have hi : i < runtimeThreadKeyCount := List.mem_range.mp (List.mem_of_find?_eq_some hf)
    have hgeneration : nextGeneration (s.keys i).generation = generationOf (s.creations i + 1) := by
      rw [(h.slots i).generation, generationOf, generationOf, Function.iterate_succ_apply']
    refine ⟨⟨fun j => ?_, fun t j => ?_, fun t => ?_⟩, ?_⟩
    · by_cases hj : j = i
      · subst hj
        exact ⟨by simp [(h.slots j).creations], by simp, by simp [hgeneration],
          fun _ => ⟨by simp [Service.current], by simp⟩, fun hle => absurd hi (Nat.not_lt.mpr hle)⟩
      · have hslot := h.slots j
        refine ⟨by simp [hj, hslot.creations], by simp [hj, hslot.live],
          by simp [hj, hslot.generation], fun ha => ?_, fun hle => by simp [hj, hslot.unused hle]⟩
        have := hslot.destructor (by simpa [hj] using ha)
        simpa [hj, Service.current] using this
    · have hstored := h.stored t j
      have hle : s.creations j ≤ Function.update s.creations i (s.creations i + 1) j := by
        by_cases hj : j = i <;> simp [hj]
      exact ⟨hstored.generation, hstored.value, Nat.le_trans hstored.latest hle, hstored.never,
        fun n hn hle' => hstored.other n hn (Nat.le_trans hle hle')⟩
    · have hplace := h.scan t
      simp only
      generalize s.scan t = p, v.scan t = q at hplace
      cases hplace with
      | same hp => exact .same hp
      | @fetched pass j _ _ _ hle hlatest hpos hother =>
        refine .fetched (Nat.le_trans hle ?_) hlatest hpos hother
        by_cases hj : j = i <;> simp [hj]
    · simp only [hgeneration, Creation.handle, (h.slots i).creations]

theorem matches_delete (h : Matches s v) (hr : Recent s c) :
    Matches (keyDelete s c.handle).1 (delete v c).1 ∧
      (keyDelete s c.handle).2 = (delete v c).2 := by
  obtain ⟨hindex, hgeneration, hhas⟩ := (h.slots c.index).has_iff hr
  unfold keyDelete delete
  rw [hhas, hindex]
  split
  · refine ⟨⟨fun j => ?_, fun t j => ?_, fun t => ?_⟩, rfl⟩
    · have hslot := h.slots j
      by_cases hj : j = c.index
      · rw [hj] at hslot ⊢
        exact ⟨hslot.creations, by simp, by simp [hslot.generation], by simp, hslot.unused⟩
      · exact ⟨hslot.creations, by simp [hj, hslot.live], by simp [hj, hslot.generation],
          by simpa [hj, Service.current] using hslot.destructor, hslot.unused⟩
    · have hstored := h.stored t j
      exact ⟨hstored.generation, hstored.value, hstored.latest, hstored.never, hstored.other⟩
    · have hplace := h.scan t
      simp only
      generalize s.scan t = p, v.scan t = q at hplace
      cases hplace with
      | same hp => exact .same hp
      | fetched hle hlatest hpos hother => exact .fetched hle hlatest hpos hother
  · exact ⟨h, rfl⟩

theorem matches_get (h : Matches s v) (hr : Recent s c) (hs : RecentlyStored s t c.index) :
    Matches (keyGet s t c.handle).1 (get v t c).1 ∧
      (keyGet s t c.handle).2 = (get v t c).2 := by
  obtain ⟨hindex, hgeneration, hhas⟩ := (h.slots c.index).has_iff hr
  have hstored := h.stored t c.index
  unfold keyGet get
  rw [hhas, hindex, hgeneration, hstored.generation]
  cases hv : v.has c with
  | false => exact ⟨h, rfl⟩
  | true =>
    have hcurrent : s.creations c.index = c.serial := by
      rw [← (h.slots c.index).creations]
      simp only [Service.has, Bool.and_eq_true, decide_eq_true_eq] at hv
      exact hv.2
    by_cases hlatest : s.latest t c.index = c.serial
    · have hvalue := hstored.value
      rw [hlatest] at hvalue
      simpa [hlatest] using ⟨h, hvalue⟩
    · -- the value is under an earlier creation, whose generation is another one
      have hne : generationOf (s.latest t c.index) ≠ generationOf c.serial := fun heq => by
        rcases Nat.eq_zero_or_pos (s.latest t c.index) with h0 | hpos
        · rw [h0] at heq
          have := (generationOf_bounds hr.1).1
          rw [← heq] at this
          exact absurd this (by decide)
        · have hle := hstored.latest
          have hlt := hs.resolve_left (Nat.pos_iff_ne_zero.mp hpos)
          rw [hcurrent] at hle hlt
          exact hlatest (generationOf_injective hpos hle hlt heq)
      have hnone := hstored.other c.serial (Ne.symm hlatest) (Nat.le_of_eq hcurrent)
      simpa [hne, hnone] using h

theorem update₂_self {β : Type} (f : ThreadId → Nat → β) (x : β) : update₂ f t i x t i = x := by
  simp [update₂]

theorem update₂_other {β : Type} (f : ThreadId → Nat → β) (x : β) {u : ThreadId} {j : Nat}
    (h : u ≠ t ∨ j ≠ i) : update₂ f t i x u j = f u j := by
  unfold update₂
  by_cases hu : u = t
  · subst hu
    simp [h.resolve_left (fun h => h rfl)]
  · simp [hu]

theorem store_value (x : Option Value) {u : ThreadId} {d : Creation} (h : u ≠ t ∨ d ≠ c) :
    (v.store t c x).value u d = v.value u d := by
  unfold Service.store
  by_cases hu : u = t
  · subst hu
    simp [h.resolve_left (fun h => h rfl)]
  · simp [hu]

theorem store_value_slot (v : Service) (c : Creation) (x : Option Value) (n : Nat) {j : Nat}
    (h : u ≠ t ∨ j ≠ c.index) : (v.store t c x).value u ⟨j, n⟩ = v.value u ⟨j, n⟩ :=
  store_value _ (h.imp_right fun hj heq => hj (congrArg Creation.index heq))

theorem store_value_self (x : Option Value) : (v.store t c x).value t c = x := by
  simp [Service.store]

theorem matches_set (h : Matches s v) (hr : Recent s c) (hcalls : (s.scan t).calls = true)
    (x : Option Value) : Matches (keySet s t c.handle x).1 (set v t c x).1 ∧
      (keySet s t c.handle x).2 = (set v t c x).2 := by
  obtain ⟨hindex, hgeneration, hhas⟩ := (h.slots c.index).has_iff hr
  unfold keySet set
  rw [hhas, hindex, hgeneration]
  split
  · rename_i hv
    have hcurrent : s.creations c.index = c.serial := by
      rw [← (h.slots c.index).creations]
      simp only [Service.has, Bool.and_eq_true, decide_eq_true_eq] at hv
      exact hv.2
    refine ⟨⟨fun j => ?_, fun u j => ?_, fun u => ?_⟩, rfl⟩
    · have hslot := h.slots j
      exact ⟨hslot.creations, hslot.live, hslot.generation, hslot.destructor, hslot.unused⟩
    · have hstored := h.stored u j
      by_cases hsame : u = t ∧ j = c.index
      · obtain ⟨rfl, rfl⟩ := hsame
        refine ⟨?_, ?_, ?_, ?_, fun n hn hle => ?_⟩ <;> simp only [update₂_self] at *
        · rw [hcurrent]
        · rw [hcurrent]
          exact (store_value_self x).symm
        · exact Nat.le_refl _
        · intro h0
          have := hr.1
          omega
        · rw [store_value _ (Or.inr fun heq => hn (hcurrent.trans (congrArg Creation.serial heq).symm).symm)]
          have := hstored.latest
          exact hstored.other n (by omega) hle
      · have hother := not_and_or.mp hsame
        have hvalue := fun n => store_value_slot v c x n hother
        refine ⟨?_, ?_, ?_, ?_, fun n hn hle => ?_⟩ <;> simp only [update₂_other _ _ hother] at *
        · exact hstored.generation
        · rw [hvalue]
          exact hstored.value
        · exact hstored.latest
        · exact hstored.never
        · rw [hvalue]
          exact hstored.other n hn hle
    · have hplace := h.scan u
      by_cases hu : u = t
      · subst hu
        simp only [Service.store]
        generalize s.scan u = p, v.scan u = q at hplace hcalls
        cases hplace with
        | same hp => exact .same hp
        | fetched => cases hcalls
      · have hother : ∀ j, update₂ s.latest t c.index (s.creations c.index) u j = s.latest u j :=
          fun j => update₂_other _ _ (Or.inl hu)
        change SamePlace _ (v.store t c x) u (s.scan u) (v.scan u)
        generalize s.scan u = p, v.scan u = q at hplace
        cases hplace with
        | same hp => exact .same hp
        | @fetched pass j _ _ serial hle hlatest hpos hnone =>
          refine .fetched hle ?_ hpos fun hne => ?_
          · change update₂ s.latest t c.index _ u j ≤ serial
            rwa [hother]
          · change serial ≠ update₂ s.latest t c.index _ u j at hne
            rw [store_value _ (Or.inl hu)]
            exact hnone (by rwa [hother] at hne)
  · exact ⟨h, rfl⟩

theorem matches_place (h : Matches s v) {p q : Scan} (hplace : SamePlace s v t p q) :
    Matches { s with scan := Function.update s.scan t p }
      { v with scan := Function.update v.scan t q } := by
  refine ⟨fun j => ?_, fun u j => ?_, fun u => ?_⟩
  · have hslot := h.slots j
    exact ⟨hslot.creations, hslot.live, hslot.generation, hslot.destructor, hslot.unused⟩
  · have hstored := h.stored u j
    exact ⟨hstored.generation, hstored.value, hstored.latest, hstored.never, hstored.other⟩
  · by_cases hu : u = t
    · subst hu
      simp only [Function.update_self]
      cases hplace with
      | same hp => exact .same hp
      | fetched hle hlatest hpos hother => exact .fetched hle hlatest hpos hother
    · simp only [Function.update_of_ne hu]
      have hscan := h.scan u
      generalize s.scan u = p', v.scan u = q' at hscan
      cases hscan with
      | same hp => exact .same hp
      | fetched hle hlatest hpos hother => exact .fetched hle hlatest hpos hother

theorem next_ne_fetched (pass : Nat) (invoked : Bool) (pass' j invoked' destructor stamp) :
    Scan.next pass i invoked ≠ .fetched pass' j invoked' destructor stamp := by
  unfold Scan.next
  split
  · simp
  · split <;> simp

theorem samePlace_next (pass : Nat) (invoked : Bool) :
    SamePlace s v t (Scan.next pass i invoked) (Scan.next pass i invoked) :=
  .same (next_ne_fetched pass invoked)

theorem matches_take (h : Matches s v) (hcalls : ∀ pass i invoked destructor stamp,
      s.scan t ≠ .fetched pass i invoked destructor stamp) :
    Matches { s with values := update₂ s.values t i none } (v.store t ⟨i, s.latest t i⟩ none) := by
  refine ⟨fun j => ?_, fun u j => ?_, fun u => ?_⟩
  · have hslot := h.slots j
    exact ⟨hslot.creations, hslot.live, hslot.generation, hslot.destructor, hslot.unused⟩
  · have hstored := h.stored u j
    by_cases hsame : u = t ∧ j = i
    · obtain ⟨rfl, rfl⟩ := hsame
      refine ⟨hstored.generation, ?_, hstored.latest, fun _ => update₂_self .., fun n hn hle => ?_⟩
      · rw [store_value_self]
        exact update₂_self ..
      · rw [store_value _ (Or.inr fun heq => hn (congrArg Creation.serial heq))]
        exact hstored.other n hn hle
    · have hother := not_and_or.mp hsame
      have hvalue := fun n => store_value_slot v ⟨i, s.latest t i⟩ none n hother
      refine ⟨hstored.generation, ?_, hstored.latest, fun h0 => ?_, fun n hn hle => ?_⟩
      · rw [hvalue]
        exact (update₂_other _ _ hother).trans hstored.value
      · exact (update₂_other _ _ hother).trans (hstored.never h0)
      · rw [hvalue]
        exact hstored.other n hn hle
  · have hscan := h.scan u
    change SamePlace _ (v.store t _ none) u (s.scan u) (v.scan u)
    by_cases hu : u = t
    · subst hu
      generalize s.scan u = p, v.scan u = q at hscan hcalls
      cases hscan with
      | same hp => exact .same hp
      | fetched => exact absurd rfl (hcalls _ _ _ _ _)
    · generalize s.scan u = p, v.scan u = q at hscan
      cases hscan with
      | same hp => exact .same hp
      | fetched hle hlatest hpos hother =>
        refine .fetched hle hlatest hpos fun hne => ?_
        rw [store_value _ (Or.inl hu)]
        exact hother hne

theorem matches_scan (h : Matches s v) (hr : UsesRecent s (.scan t)) :
    Matches (runThreadSpecificDestructors s t).1 (destroy v t).1 ∧
      (runThreadSpecificDestructors s t).2 = (destroy v t).2 := by
  have hplace := h.scan t
  simp only [UsesRecent] at hr
  unfold runThreadSpecificDestructors destroy
  generalize hp : s.scan t = p, hq : v.scan t = q at hplace
  cases hplace with
  | same hnot =>
    cases p with
    | idle => exact ⟨matches_place h (.same (by simp)), rfl⟩
    | fetch pass i invoked =>
      have hslot := h.slots i
      have hstored := h.stored t i
      refine ⟨?_, rfl⟩
      have hdestructor : (if v.live i then v.destructor (v.current i) else none) =
          if (s.keys i).allocated then (s.keys i).destructor else none := by
        rw [hslot.live]
        split
        · exact (hslot.destructor ‹_›).1.symm
        · rfl
      simp only [hdestructor, hslot.generation, hslot.creations]
      refine matches_place h (.fetched (Nat.le_refl _) hstored.latest (fun hne => ?_) fun hne => ?_)
      · exact (hslot.destructor (by by_contra ha; simp [ha] at hne)).2
      · exact hstored.other _ hne (Nat.le_refl _)
    | fetched => exact absurd rfl (hnot _ _ _ _ _)
    | finished => exact ⟨h, rfl⟩
  | @fetched pass i invoked destructor serial hle hlatest hpos hother =>
    have hstored := h.stored t i
    rw [hp] at hr
    have hskip := matches_place (t := t) h (samePlace_next (t := t) (i := i) pass invoked)
    simp only [hstored.generation]
    cases destructor with
    | none => exact ⟨hskip, rfl⟩
    | some d =>
      by_cases hsame : serial = s.latest t i
      · subst hsame
        cases hvalue : s.values t i with
        | none =>
          rw [hstored.value] at hvalue
          rw [hvalue]
          exact ⟨hskip, rfl⟩
        | some x =>
          rw [hstored.value] at hvalue
          rw [hvalue]
          simp only [if_true]
          refine ⟨matches_take (matches_place h (samePlace_next pass true)) ?_, trivial⟩
          intro pass' j invoked' destructor' stamp
          simp only [Function.update_self]
          exact next_ne_fetched _ _ _ _ _ _ _
      · -- the value is under an earlier creation, whose generation is another one
        have hnone := hother hsame
        rw [hnone]
        cases hvalue : s.values t i with
        | none => exact ⟨hskip, rfl⟩
        | some x =>
          have hne : generationOf (s.latest t i) ≠ generationOf serial := fun heq => by
            have hnever : s.latest t i ≠ 0 := fun h0 => by
              rw [hstored.never h0] at hvalue
              cases hvalue
            have hlt := hr.resolve_left hnever
            exact hsame (generationOf_injective (Nat.pos_of_ne_zero hnever) hlatest
              (Nat.lt_of_le_of_lt hle hlt) heq).symm
          simp only [if_neg hne]
          exact ⟨hskip, trivial⟩

theorem matches_act (h : Matches s v) (a : Action) (hr : UsesRecent s a) :
    Matches (step s a) (serviceStep v a) ∧ answer s a = serviceAnswer v a := by
  unfold step answer serviceStep serviceAnswer
  cases a with
  | create t destructor =>
    simp only [act, serve, (h.scan t).calls]
    split
    · exact matches_create h destructor
    · exact ⟨h, rfl⟩
  | delete t c =>
    simp only [act, serve, (h.scan t).calls]
    split
    · exact matches_delete h hr
    · exact ⟨h, rfl⟩
  | get t c =>
    simp only [act, serve, (h.scan t).calls]
    split
    · exact matches_get h hr.1 hr.2
    · exact ⟨h, rfl⟩
  | set t c x =>
    simp only [act, serve, (h.scan t).calls]
    split
    · exact matches_set h hr ‹_› x
    · exact ⟨h, rfl⟩
  | scan t => exact matches_scan h hr

end

theorem keys_serve (is : List Action) (h : Runs.Along step UsesRecent initial is) :
    Runs.outputs step answer initial is = Runs.outputs serviceStep serviceAnswer start is :=
  (Runs.simulation (R := Matches) (fun _ _ a _ hm hr => matches_act hm a hr) matches_start h).2

instance (s : Keys) (c : Creation) : Decidable (Recent s c) := inferInstanceAs (Decidable (_ ∧ _))

instance (s : Keys) (t : ThreadId) (i : Nat) : Decidable (RecentlyStored s t i) :=
  inferInstanceAs (Decidable (_ ∨ _))

instance (s : Keys) : (a : Action) → Decidable (UsesRecent s a)
  | .create _ _ => isTrue trivial
  | .delete _ c | .set _ c _ => inferInstanceAs (Decidable (Recent s c))
  | .get t c => inferInstanceAs (Decidable (Recent s c ∧ RecentlyStored s t c.index))
  | .scan t =>
    match h : s.scan t with
    | .fetched _ i _ _ _ => decidable_of_iff (RecentlyStored s t i) (by simp only [UsesRecent, h])
    | .idle | .fetch .. | .finished => isTrue (by simp only [UsesRecent, h])

/-- A thread uses a key, deletes it, creates another one in its slot and exits. -/
def reuse : List Action :=
  [.create 0 (some 5), .set 0 ⟨0, 1⟩ (some 7), .get 0 ⟨0, 1⟩, .delete 0 ⟨0, 1⟩, .get 0 ⟨0, 1⟩,
    .create 0 (some 6), .get 0 ⟨0, 2⟩, .set 0 ⟨0, 2⟩ (some 8), .scan 0, .scan 0, .scan 0]

theorem keys_serve_reuse : Runs.outputs step answer initial reuse =
    Runs.outputs serviceStep serviceAnswer start reuse := keys_serve reuse (by decide +kernel)

theorem serviceStep_slot (v : Service) (a : Action) (i : Nat) :
    ((serviceStep v a).creations i = v.creations i ∧
        ((serviceStep v a).live i = v.live i ∨ (serviceStep v a).live i = false)) ∨
      (serviceStep v a).creations i = v.creations i + 1 := by
  unfold serviceStep
  cases a with
  | create t destructor =>
    simp only [serve, create]
    split
    · split
      · rename_i j _
        by_cases hj : i = j
        · exact Or.inr (by simp [hj])
        · exact Or.inl (by simp [hj])
      · exact Or.inl ⟨rfl, Or.inl rfl⟩
    · exact Or.inl ⟨rfl, Or.inl rfl⟩
  | delete t c =>
    simp only [serve, delete]
    split
    · split
      · by_cases hj : i = c.index
        · exact Or.inl (by simp [hj])
        · exact Or.inl (by simp [hj])
      · exact Or.inl ⟨rfl, Or.inl rfl⟩
    · exact Or.inl ⟨rfl, Or.inl rfl⟩
  | get t c => exact Or.inl (by simp only [serve, get]; split <;> simp)
  | set t c x => exact Or.inl (by simp only [serve, set, Service.store]; split <;> [split; skip] <;> simp)
  | scan t =>
    refine Or.inl ?_
    simp only [serve, destroy, Service.store]
    split
    · simp
    · simp
    · split <;> simp
    · simp

/-- The creation has been made, and it is deleted. -/
def Deleted (v : Service) (c : Creation) : Prop := c.serial ≤ v.creations c.index ∧ v.has c = false

theorem deleted_run {v : Service} {c : Creation} (h : Deleted v c) (is : List Action) :
    Deleted (Runs.run serviceStep v is) c := by
  refine Runs.invariant_always (P := fun v => Deleted v c) (fun v a hd => ?_) h is
  obtain ⟨hle, hhas⟩ := hd
  simp only [Deleted, Service.has] at hhas ⊢
  rcases serviceStep_slot v a c.index with ⟨hcreations, hlive | hlive⟩ | hcreations
  · rw [hcreations, hlive]
    exact ⟨hle, hhas⟩
  · rw [hcreations, hlive]
    exact ⟨hle, rfl⟩
  · rw [hcreations, decide_eq_false (by omega), Bool.and_false]
    exact ⟨Nat.le_succ_of_le hle, rfl⟩

/-- A step with a handle that `key_create` has returned. -/
def UsesCreated (s : Keys) : Action → Prop
  | .delete _ c | .set _ c _ | .get _ c => 0 < c.serial ∧ c.serial ≤ s.creations c.index
  | _ => True

/-- Thread 0 stores a value under the first creation of slot 0, deletes it, and creates and deletes
the key `n` more times. -/
def cycles : Nat → List Action
  | 0 => [.create 0 none, .set 0 ⟨0, 1⟩ (some 7), .delete 0 ⟨0, 1⟩]
  | n + 1 => cycles n ++ [.create 0 none, .delete 0 ⟨0, n + 2⟩]

/-- What the cycles lead to, in the runtime and in the service. -/
structure Cycled (s : Keys) (v : Service) (n : Nat) : Prop where
  key : s.keys 0 = ⟨none, generationOf (n + 1), false⟩
  creations : s.creations 0 = n + 1
  generation : s.generations 0 0 = 1
  value : s.values 0 0 = some 7
  calls : (s.scan 0).calls = true
  live : v.live 0 = false
  created : v.creations 0 = n + 1
  never : ∀ m, 1 < m → v.value 0 ⟨0, m⟩ = none
  may : (v.scan 0).calls = true

theorem Cycled.created_again {s : Keys} {v : Service} {n : Nat} (h : Cycled s v n) :
    step s (.create 0 none) = { s with
        keys := Function.update s.keys 0
          { allocated := true, destructor := none, generation := generationOf (n + 2) }
        creations := Function.update s.creations 0 (n + 2) } ∧
      serviceStep v (.create 0 none) = { v with
        live := Function.update v.live 0 true
        creations := Function.update v.creations 0 (n + 2)
        destructor := Function.update v.destructor ⟨0, n + 2⟩ none } := by
  have hfind : ((List.range runtimeThreadKeyCount).find? fun i => !(s.keys i).allocated) = some 0 :=
    List.find?_cons_of_pos (by simp [h.key])
  have hfree : ((List.range runtimeThreadKeyCount).find? fun i => !v.live i) = some 0 :=
    List.find?_cons_of_pos (by simp [h.live])
  have hnext : nextGeneration (generationOf (n + 1)) = generationOf (n + 2) :=
    (Function.iterate_succ_apply' ..).symm
  constructor
  · simp only [step, act, h.calls, if_true, keyCreate, hfind, h.key, hnext, h.creations]
  · simp only [serviceStep, serve, h.may, if_true, create, hfree, h.created]

theorem has_created {s : Keys} {n : Nat} {d : Option Destructor} (hn : 0 < n)
    (h : s.keys 0 = ⟨d, generationOf n, true⟩) :
    keyIndex (Creation.handle ⟨0, n⟩) = 0 ∧
      keyGeneration (Creation.handle ⟨0, n⟩) = generationOf n ∧ s.has (Creation.handle ⟨0, n⟩) = true := by
  obtain ⟨hpos, hlt⟩ := generationOf_bounds hn
  obtain ⟨hindex, hgeneration⟩ := key_makeKey (i := 0) (by decide) hlt
  refine ⟨hindex, hgeneration, ?_⟩
  simp [Keys.has, Creation.handle, hindex, hgeneration, h, Nat.pos_iff_ne_zero.mp hpos]

theorem Cycled.again {s : Keys} {v : Service} {n : Nat} (h : Cycled s v n) :
    Cycled (Runs.run step s [.create 0 none, .delete 0 ⟨0, n + 2⟩])
      (Runs.run serviceStep v [.create 0 none, .delete 0 ⟨0, n + 2⟩]) (n + 1) := by
  obtain ⟨hs, hv⟩ := h.created_again
  simp only [Runs.run_cons, Runs.run_nil]
  rw [hs, hv]
  obtain ⟨hindex, hgeneration, hhas⟩ := has_created (d := none) (n := n + 2) (s := { s with
        keys := Function.update s.keys 0
          { allocated := true, destructor := none, generation := generationOf (n + 2) }
        creations := Function.update s.creations 0 (n + 2) }) (by omega) (by simp)
  constructor <;>
    simp [step, serviceStep, act, serve, h.calls, h.may, keyDelete, delete, hhas, hindex, Service.has,
      h.generation, h.value]
  exact h.never

theorem cycled (n : Nat) :
    Cycled (Runs.run step initial (cycles n)) (Runs.run serviceStep start (cycles n)) n := by
  induction n with
  | zero =>
    refine ⟨rfl, rfl, rfl, rfl, rfl, rfl, rfl, fun m hm => ?_, rfl⟩
    have hne : (⟨0, m⟩ : Creation) ≠ ⟨0, 1⟩ := fun heq => by
      have := congrArg Creation.serial heq
      exact absurd this (Nat.ne_of_gt hm)
    change (Service.store _ 0 ⟨0, 1⟩ (some 7)).value 0 ⟨0, m⟩ = none
    rw [store_value _ (Or.inr hne)]
    rfl
  | succ n ih =>
    rw [cycles, Runs.run_append, Runs.run_append]
    exact ih.again

theorem cycles_created (n : Nat) : Runs.Along step UsesCreated initial (cycles n) := by
  induction n with
  | zero => exact ⟨trivial, ⟨by decide, by decide⟩, ⟨by decide, by decide⟩, trivial⟩
  | succ n ih =>
    rw [cycles, Runs.along_append]
    refine ⟨ih, trivial, ⟨Nat.succ_pos _, ?_⟩, trivial⟩
    rw [(cycled n).created_again.1]
    simp

/-- A later creation with the generation of the first one: the runtime returns what the thread has
stored under the first, the service nothing. -/
theorem outputs_ne_of_generation {n : Nat} (hone : generationOf (n + 2) = 1) :
    Runs.outputs step answer initial (cycles n ++ [.create 0 none, .get 0 ⟨0, n + 2⟩]) ≠
      Runs.outputs serviceStep serviceAnswer start
        (cycles n ++ [.create 0 none, .get 0 ⟨0, n + 2⟩]) := by
  intro heq
  have hcycled := cycled n
  rw [Runs.outputs_append, Runs.outputs_append] at heq
  have hlast := (List.append_inj' heq rfl).2
  simp only [Runs.outputs, List.cons.injEq, and_true] at hlast
  have hget := hlast.2
  obtain ⟨hs, hv⟩ := hcycled.created_again
  rw [hs, hv] at hget
  generalize Runs.run step initial (cycles n) = s at hcycled hget
  generalize Runs.run serviceStep start (cycles n) = v at hcycled hget
  obtain ⟨hindex, hgeneration, hhas⟩ := has_created (d := none) (n := n + 2) (s := { s with
        keys := Function.update s.keys 0
          { allocated := true, destructor := none, generation := generationOf (n + 2) }
        creations := Function.update s.creations 0 (n + 2) }) (by omega) (by simp)
  have hnever := hcycled.never (n + 2) (by omega)
  simp only [hone] at hhas hgeneration hget
  simp [answer, serviceAnswer, act, serve, hcycled.calls, hcycled.may, keyGet, get, hhas, hindex,
    hgeneration, hcycled.generation, hcycled.value, hnever] at hget

/-- The last creation has the number 2 ^ 24, and the generation 1 again. -/
theorem keys_not_serve : ¬ ∀ is, Runs.Along step UsesCreated initial is →
    Runs.outputs step answer initial is = Runs.outputs serviceStep serviceAnswer start is := by
  intro hall
  have hone : ∃ n, generationOf (n + 2) = 1 := ⟨2 ^ 24 - 2, by
    rw [generationOf_succ, show 2 ^ 24 - 2 + 1 = period from rfl, Nat.mod_self]⟩
  obtain ⟨n, hone⟩ := hone
  refine outputs_ne_of_generation hone (hall _ ?_)
  rw [Runs.along_append]
  refine ⟨cycles_created n, trivial, ⟨Nat.succ_pos _, ?_⟩, trivial⟩
  rw [(cycled n).created_again.1]
  simp

end SimPLCity.KeyService
