import SimPLCity.EmulatedTls
import Mathlib.Data.List.Pairwise

/-! Each thread has one storage for each object, and the application thread that of the startup
context, as long as the startup context makes no call after its array was adopted. -/

namespace SimPLCity.ThreadStorage
open EmulatedTls

/-- An array with room for the offset that has the old entries and no others. -/
structure Extends (old : Option EmutlsArray) (array : EmutlsArray) (offset : Nat) : Prop where
  room : offset ≤ array.capacity
  kept : ∀ a, old = some a → ∀ i < a.capacity, i < array.capacity ∧ array.entries i = a.entries i
  clear : ∀ i < array.capacity, (∀ a, old = some a → a.capacity ≤ i) → array.entries i = none

theorem extends_grow {array grown : EmutlsArray} {offset : Nat} {garbage : Nat → Option Storage}
    (hoffset : offset > array.capacity) (h : growEmutlsArray array offset garbage = some grown) :
    Extends (some array) grown offset := by
  -- the new capacity is not below the old one
  have hdoubled : array.capacity ≤
      if array.capacity ≤ sizeMax / 2 then array.capacity * 2 else offset := by
    split <;> omega
  unfold growEmutlsArray at h
  dsimp only at h
  generalize (if array.capacity ≤ sizeMax / 2 then array.capacity * 2 else offset) = doubled
    at h hdoubled
  split at h
  · cases h
  · obtain ⟨_, -, rfl⟩ := Option.map_eq_some_iff.mp h
    have hroom : offset ≤ if doubled < offset then offset + 32 else doubled := by
      split <;> omega
    have hcapacity : array.capacity ≤ if doubled < offset then offset + 32 else doubled := by
      split <;> omega
    refine ⟨hroom, fun a ha i hi => ?_, fun i hi hold => ?_⟩
    · cases ha
      refine ⟨Nat.lt_of_lt_of_le hi hcapacity, ?_⟩
      dsimp only
      rw [if_neg (by omega), if_pos hi]
    · have hi' := hold array rfl
      dsimp only at hi ⊢
      rw [if_pos ⟨hi', hi⟩]

theorem extends_ensure {old : Option EmutlsArray} {array : EmutlsArray} {offset : Nat}
    {garbage : Nat → Option Storage} (h : ensureArray old offset garbage = some array) :
    Extends old array offset := by
  unfold ensureArray at h
  split at h
  · split at h
    · cases h
    · obtain ⟨_, -, rfl⟩ := Option.map_eq_some_iff.mp h
      exact ⟨Nat.le_add_right .., nofun, fun _ _ _ => rfl⟩
  · split at h
    · exact extends_grow ‹_› h
    · cases h
      refine ⟨Nat.not_lt.mp ‹_›, fun a ha i hi => ?_, fun i hi hold => ?_⟩
      · cases ha
        exact ⟨hi, rfl⟩
      · exact absurd hi (Nat.not_lt.mpr (hold _ rfl))

/-- The storage has room for the object behind the pointer to its block, and is aligned. -/
structure Fits (object : EmutlsObject) (storage : Storage) : Prop where
  header : storage.allocation + pointerSize ≤ storage.address
  room : storage.address + object.size ≤ storage.allocation + storage.length
  aligned : object.alignment ∣ storage.address

/-- What the storage holds at first. -/
def template (object : EmutlsObject) : List UInt8 :=
  match object.initializer with
  | some bytes => bytes.take object.size
  | none => List.replicate object.size 0

theorem alignUp_bounds (address : Nat) {alignment : Nat} (h : 0 < alignment) :
    address ≤ alignUp address alignment ∧ alignUp address alignment < address + alignment := by
  have hdiv := Nat.div_add_mod (address + alignment - 1) alignment
  have hmod := Nat.mod_lt (address + alignment - 1) h
  rw [Nat.mul_comm] at hdiv
  unfold alignUp
  omega

theorem allocate_fits {object : EmutlsObject} {allocation : Nat} {storage : Storage}
    {contents : List UInt8} (h : allocateEmutlsObject object allocation = some (storage, contents)) :
    Fits object storage ∧ contents = template object ∧ 0 < storage.length := by
  unfold allocateEmutlsObject at h
  split at h
  · cases h
  · rename_i hchecks
    have hpos : 0 < object.alignment := by
      rw [Nat.pos_iff_ne_zero]
      exact fun h0 => hchecks (Or.inl h0)
    cases h
    have hbounds := alignUp_bounds (allocation + pointerSize) hpos
    simp only [pointerSize] at *
    refine ⟨⟨hbounds.1, ?_, Nat.dvd_mul_left ..⟩, rfl, ?_⟩
    · dsimp only
      omega
    · omega

instance : Std.Symm Storage.Apart := ⟨fun _ _ => Or.symm⟩

/-- The array of the thread that the context is belongs to this context. -/
def Home (s : Tls) : Context → Prop
  | .startup => s.adopted = false
  | .thread t => t = applicationThread → s.adopted = true

/-- A call that has the offset of its object. -/
def CallOk (s : Tls) (c : Context) : Call → Prop
  | .idle => True
  | .loaded object offset => Home s c ∧ (offset = 0 ∨ offset = s.offset object)
  | .located object offset => Home s c ∧ offset = s.offset object ∧ offset ≠ 0

/-- The context's array has this storage for the object. -/
def Has (s : Tls) (c : Context) (object : ObjectId) (storage : Storage) : Prop :=
  ∃ array, s.emutls c = some array ∧ s.offset object ≠ 0 ∧ s.offset object - 1 < array.capacity ∧
    array.entries (s.offset object - 1) = some storage

structure Inv (objects : ObjectId → EmutlsObject) (s : Tls) : Prop where
  counted : ∀ object, s.offset object ≤ s.emutlsObjectCount
  numbered : ∀ object object', s.offset object = s.offset object' → s.offset object ≠ 0 →
    object = object'
  calls : ∀ c, CallOk s c (s.call c)
  homes : ∀ c, s.emutls c ≠ none → Home s c
  dead : ∀ t, s.alive t = false → s.emutls (.thread t) = none ∧ s.call (.thread t) = .idle
  started : s.started = true → s.adopted = true
  entries : ∀ c array i storage, s.emutls c = some array → i < array.capacity →
    array.entries i = some storage → ∃ object, s.offset object = i + 1
  given : ∀ c object storage, Home s c → (s.given c.owner object = some storage ↔
    Has s c object storage)
  owned : ∀ t object storage, s.given t object = some storage →
    storage ∈ s.heap ∧ Fits (objects object) storage
  distinct : ∀ t object t' object' storage, s.given t object = some storage →
    s.given t' object' = some storage → t = t' ∧ object = object'
  heap : s.heap.Pairwise Storage.Apart
  length : ∀ storage ∈ s.heap, 0 < storage.length

section
variable {objects : ObjectId → EmutlsObject} {s s' : Tls}

theorem inv_initial : Inv objects initial where
  counted := fun _ => Nat.le_refl _
  numbered := fun _ _ _ h => absurd rfl h
  calls := fun _ => trivial
  homes := fun _ h => absurd rfl h
  dead := fun _ _ => ⟨rfl, rfl⟩
  started := nofun
  entries := nofun
  given := fun _ _ _ _ => ⟨nofun, fun ⟨_, h, _⟩ => by cases h⟩
  owned := nofun
  distinct := nofun
  heap := .nil
  length := nofun

theorem home_unique {c c' : Context} (h : Home s c) (h' : Home s c') (howner : c.owner = c'.owner) :
    c = c' := by
  cases c with
  | startup =>
    cases c' with
    | startup => rfl
    | thread t =>
      have hnot : s.adopted = false := h
      rw [h' howner.symm] at hnot
      cases hnot
  | thread t =>
    cases c' with
    | startup =>
      have hnot : s.adopted = false := h'
      rw [h howner] at hnot
      cases hnot
    | thread t' => exact congrArg Context.thread howner

theorem home_congr {c : Context} (ha : s'.adopted = s.adopted) : Home s' c ↔ Home s c := by
  cases c <;> simp [Home, ha]

theorem callOk_congr {c : Context} {call : Call} (ha : s'.adopted = s.adopted)
    (ho : s'.offset = s.offset) (h : CallOk s c call) : CallOk s' c call := by
  cases call with
  | idle => trivial
  | loaded object offset => exact ⟨(home_congr ha).mpr h.1, ho ▸ h.2⟩
  | located object offset => exact ⟨(home_congr ha).mpr h.1, ho ▸ h.2⟩

/-- What the end of a call does: the entry is there, or it is new in the array. -/
structure Finished (objects : ObjectId → EmutlsObject) (s s' : Tls) (c : Context) (object : ObjectId)
    (array : EmutlsArray) (storage : Storage) (created : Option (List UInt8)) : Prop where
  call : s.call c = .located object (s.offset object)
  grown : Extends (s.emutls c) array (s.offset object)
  result : s' = { s with
    emutls := Function.update s.emutls c (some ⟨array.capacity,
      Function.update array.entries (s.offset object - 1) (some storage)⟩)
    heap := if created = none then s.heap else storage :: s.heap
    call := Function.update s.call c .idle
    given := Function.update s.given c.owner
      (Function.update (s.given c.owner) object (some storage)) }
  entry : created = none → array.entries (s.offset object - 1) = some storage
  fresh : ∀ contents, created = some contents → array.entries (s.offset object - 1) = none ∧
    contents = template (objects object) ∧ Fits (objects object) storage ∧ 0 < storage.length ∧
    ∀ other ∈ s.heap, storage.Apart other

theorem finish_cases (h : Inv objects s) {c : Context} {allocation : Nat}
    {garbage : Nat → Option Storage} {storage : Storage} {created : Option (List UInt8)}
    (hs : s.finish objects c allocation garbage = some (s', storage, created)) :
    ∃ object array, Finished objects s s' c object array storage created := by
  unfold Tls.finish at hs
  split at hs
  · rename_i object offset hcall
    have hok := h.calls c
    rw [hcall] at hok
    obtain ⟨-, rfl, -⟩ := hok
    obtain ⟨⟨s₁, storage₁, created₁⟩, hget, heq⟩ := Option.map_eq_some_iff.mp hs
    cases heq
    obtain ⟨array, harray, hget⟩ := Option.bind_eq_some_iff.mp hget
    refine ⟨object, array, ?_⟩
    have hextends := extends_ensure harray
    split at hget
    · rename_i storage hentry
      cases hget
      refine ⟨hcall, hextends, ?_, fun _ => hentry, nofun⟩
      rw [← hentry, Function.update_eq_self]
      rfl
    · rename_i hentry
      obtain ⟨⟨storage, contents⟩, halloc, hget⟩ := Option.bind_eq_some_iff.mp hget
      obtain ⟨hfits, hcontents, hlength⟩ := allocate_fits halloc
      dsimp only at hget
      split at hget
      · rename_i hapart
        cases hget
        refine ⟨hcall, hextends, rfl, nofun, fun contents hc => ?_⟩
        cases hc
        exact ⟨hentry, hcontents, hfits, hlength,
          fun other ho => of_decide_eq_true (List.all_eq_true.mp hapart other ho)⟩
      · cases hget
  · cases hs

theorem Finished.entry_iff (h : Inv objects s) {c : Context} {object : ObjectId}
    {array : EmutlsArray} {storage : Storage} {created : Option (List UInt8)}
    (hf : Finished objects s s' c object array storage created) :
    Home s c ∧ s.offset object ≠ 0 ∧
      s.given c.owner object = array.entries (s.offset object - 1) := by
  have hok := h.calls c
  rw [hf.call] at hok
  obtain ⟨hhome, -, hoffset⟩ := hok
  refine ⟨hhome, hoffset, ?_⟩
  cases hgiven : s.given c.owner object with
  | some storage =>
    obtain ⟨old, hold, -, hlt, hentry⟩ := (h.given c object storage hhome).mp hgiven
    rw [(hf.grown.kept old hold _ hlt).2, hentry]
  | none =>
    by_cases hin : ∃ old, s.emutls c = some old ∧ s.offset object - 1 < old.capacity
    · obtain ⟨old, hold, hlt⟩ := hin
      rw [(hf.grown.kept old hold _ hlt).2]
      cases hentry : old.entries (s.offset object - 1) with
      | none => rfl
      | some storage =>
        have hhas := (h.given c object storage hhome).mpr ⟨old, hold, hoffset, hlt, hentry⟩
        rw [hgiven] at hhas
        cases hhas
    · have hroom := hf.grown.room
      refine (hf.grown.clear _ (by omega) fun old hold => Nat.not_lt.mp fun hlt => ?_).symm
      exact hin ⟨old, hold, hlt⟩

section
variable {c : Context} {object : ObjectId} {array : EmutlsArray} {storage : Storage}
  {created : Option (List UInt8)}

/-- The storage is the object's only, whether it was there or is new. -/
theorem Finished.owned (h : Inv objects s) (hf : Finished objects s s' c object array storage created) :
    (storage ∈ if created = none then s.heap else storage :: s.heap) ∧ Fits (objects object) storage ∧
      ∀ t o, s.given t o = some storage → t = c.owner ∧ o = object := by
  obtain ⟨-, -, hgiven⟩ := hf.entry_iff h
  cases hc : created with
  | none =>
    rw [hf.entry hc] at hgiven
    rw [if_pos rfl]
    obtain ⟨hmem, hfits⟩ := h.owned _ _ _ hgiven
    exact ⟨hmem, hfits, fun t o ht => h.distinct _ _ _ _ _ ht hgiven⟩
  | some contents =>
    obtain ⟨-, -, hfits, hlength, hapart⟩ := hf.fresh contents hc
    rw [if_neg (by simp)]
    refine ⟨List.mem_cons_self, hfits, fun t o ht => ?_⟩
    have hself := hapart storage (h.owned t o storage ht).1
    simp only [Storage.Apart] at hself
    omega

theorem Finished.old_entry (hf : Finished objects s s' c object array storage created) {i : Nat}
    {st : Storage} (hi : i < array.capacity) (hst : array.entries i = some st) :
    ∃ old, s.emutls c = some old ∧ i < old.capacity ∧ old.entries i = some st := by
  by_cases hin : ∃ old, s.emutls c = some old ∧ i < old.capacity
  · obtain ⟨old, hold, hlt⟩ := hin
    exact ⟨old, hold, hlt, (hf.grown.kept old hold i hlt).2 ▸ hst⟩
  · rw [hf.grown.clear i hi fun old hold => Nat.not_lt.mp fun hlt => hin ⟨old, hold, hlt⟩] at hst
    cases hst

theorem given_update_cases {given : ThreadId → ObjectId → Option Storage} {thread t : ThreadId}
    {o : ObjectId} {st : Storage}
    (hst : Function.update given thread (Function.update (given thread) object (some storage)) t o = some st) :
    (t = thread ∧ o = object ∧ st = storage) ∨ given t o = some st := by
  by_cases hto : t = thread ∧ o = object
  · obtain ⟨rfl, rfl⟩ := hto
    simp only [Function.update_self, Option.some.injEq] at hst
    exact Or.inl ⟨rfl, rfl, hst.symm⟩
  · right
    by_cases ht : t = thread
    · have ho : o ≠ object := fun ho => hto ⟨ht, ho⟩
      simpa [ht, ho] using hst
    · simpa [ht] using hst

theorem Finished.given_iff (h : Inv objects s) (hf : Finished objects s s' c object array storage created)
    {d : Context} (hd : Home s d) (o : ObjectId) (st : Storage) :
    s'.given d.owner o = some st ↔ Has s' d o st := by
  obtain ⟨hhome, hoffset, -⟩ := hf.entry_iff h
  have hroom := hf.grown.room
  rw [hf.result]
  by_cases hdc : d = c
  · subst hdc
    by_cases ho : o = object
    · subst ho
      simp only [Function.update_self, Has, Option.some.injEq]
      constructor
      · rintro rfl
        have hlt : s.offset o - 1 < array.capacity := by omega
        exact ⟨_, rfl, hoffset, hlt, Function.update_self ..⟩
      · rintro ⟨a, rfl, -, -, hentry⟩
        simpa using hentry
    · have hne : ∀ n, s.offset o - 1 = n → s.offset o ≠ 0 → n ≠ s.offset object - 1 :=
        fun n hn hpos heq => ho (h.numbered o object (by omega) hpos)
      simp only [Function.update_self, Function.update_of_ne ho]
      rw [h.given d o st hhome]
      constructor
      · rintro ⟨old, hold, hpos, hlt, hentry⟩
        have hkept := hf.grown.kept old hold _ hlt
        refine ⟨_, Function.update_self .., hpos, hkept.1, ?_⟩
        simp only [Function.update_of_ne (hne _ rfl hpos)]
        rw [hkept.2, hentry]
      · rintro ⟨a, ha, hpos, hlt, hentry⟩
        simp only [Function.update_self, Option.some.injEq] at ha
        subst ha
        simp only [Function.update_of_ne (hne _ rfl hpos)] at hentry
        obtain ⟨old, hold, hlt, hentry⟩ := hf.old_entry hlt hentry
        exact ⟨old, hold, hpos, hlt, hentry⟩
  · have howner : d.owner ≠ c.owner := fun heq => hdc (home_unique hd hhome heq)
    simpa [hdc, howner, Has] using h.given d o st hd

theorem inv_finish (h : Inv objects s) (hf : Finished objects s s' c object array storage created) :
    Inv objects s' := by
  obtain ⟨hhome, hoffset, -⟩ := hf.entry_iff h
  obtain ⟨hmem, hfits, honly⟩ := hf.owned h
  have hgiven : ∀ d o st, Home s d → (s'.given d.owner o = some st ↔ Has s' d o st) :=
    fun d o st hd => hf.given_iff h hd o st
  have hheap : ∀ other ∈ s.heap, other ∈ if created = none then s.heap else storage :: s.heap := by
    intro other ho
    split
    · exact ho
    · exact List.mem_cons_of_mem _ ho
  rw [hf.result] at hgiven ⊢
  refine ⟨h.counted, h.numbered, fun d => ?_, fun d hd => ?_, fun t ht => ?_, h.started,
    fun d a i st ha hi hst => ?_, hgiven, fun t o st hst => ?_,
    fun t o t' o' st hst hst' => ?_, ?_, fun st hst => ?_⟩
  · by_cases hdc : d = c
    · simp [hdc, CallOk]
    · simp only [Function.update_of_ne hdc]
      exact callOk_congr rfl rfl (h.calls d)
  · by_cases hdc : d = c
    · exact hdc ▸ hhome
    · exact h.homes d (by simpa [hdc] using hd)
  · have hidle := (h.dead t ht).2
    have htc : Context.thread t ≠ c := fun heq => by
      rw [heq, hf.call] at hidle
      cases hidle
    simpa [htc] using h.dead t ht
  · by_cases hdc : d = c
    · simp only [hdc, Function.update_self, Option.some.injEq] at ha
      subst ha
      by_cases hio : i = s.offset object - 1
      · exact ⟨object, show s.offset object = i + 1 by omega⟩
      · dsimp only at hst hi
        rw [Function.update_of_ne hio] at hst
        obtain ⟨old, hold, hlt, hentry⟩ := hf.old_entry hi hst
        exact h.entries c old i st hold hlt hentry
    · exact h.entries d a i st (by simpa [hdc] using ha) hi hst
  · rcases given_update_cases hst with ⟨rfl, rfl, rfl⟩ | hst
    · exact ⟨hmem, hfits⟩
    · exact ⟨hheap st (h.owned t o st hst).1, (h.owned t o st hst).2⟩
  · rcases given_update_cases hst with ⟨ht, ho, rfl⟩ | hs
    · rcases given_update_cases hst' with ⟨ht', ho', -⟩ | hs'
      · exact ⟨ht.trans ht'.symm, ho.trans ho'.symm⟩
      · obtain ⟨ht', ho'⟩ := honly t' o' hs'
        exact ⟨ht.trans ht'.symm, ho.trans ho'.symm⟩
    · rcases given_update_cases hst' with ⟨ht', ho', rfl⟩ | hs'
      · obtain ⟨ht, ho⟩ := honly t o hs
        exact ⟨ht.trans ht'.symm, ho.trans ho'.symm⟩
      · exact h.distinct t o t' o' st hs hs'
  · cases hc : created with
    | none => exact h.heap
    | some contents =>
      exact List.pairwise_cons.mpr ⟨(hf.fresh contents hc).2.2.2.2, h.heap⟩
  · cases hc : created with
    | none => exact h.length st (by simpa [hc] using hst)
    | some contents =>
      simp only [hc, reduceCtorEq, if_false, List.mem_cons] at hst
      rcases hst with rfl | hst
      · exact (hf.fresh contents hc).2.2.2.1
      · exact h.length st hst

end

theorem inv_setCall (h : Inv objects s) {c : Context} {call : Call} (hok : CallOk s c call)
    (halive : ∀ t, c = .thread t → s.alive t = true) :
    Inv objects { s with call := Function.update s.call c call } := by
  refine { h with calls := fun d => ?_, dead := fun t ht => ?_ }
  · by_cases hdc : d = c
    · subst hdc
      simp only [Function.update_self]
      exact callOk_congr rfl rfl hok
    · simp only [Function.update_of_ne hdc]
      exact callOk_congr rfl rfl (h.calls d)
  · have htc : Context.thread t ≠ c := fun heq => by
      rw [halive t heq.symm] at ht
      cases ht
    refine ⟨(h.dead t ht).1, ?_⟩
    simp only [Function.update_of_ne htc]
    exact (h.dead t ht).2

theorem alive_of_call (h : Inv objects s) {c : Context} (hc : s.call c ≠ .idle) :
    ∀ t, c = .thread t → s.alive t = true := by
  rintro t rfl
  cases ha : s.alive t with
  | true => rfl
  | false => exact absurd (h.dead t ha).2 hc

theorem inv_assign (h : Inv objects s) {object : ObjectId} (hzero : s.offset object = 0) :
    Inv objects { s with
      emutlsObjectCount := s.emutlsObjectCount + 1
      offset := Function.update s.offset object (s.emutlsObjectCount + 1) } := by
  have hsame : ∀ o, s.offset o ≠ 0 →
      Function.update s.offset object (s.emutlsObjectCount + 1) o = s.offset o := by
    intro o ho
    have hne : o ≠ object := fun heq => ho (heq ▸ hzero)
    exact Function.update_of_ne hne ..
  refine { h with
    counted := fun o => ?_, numbered := fun o o' heq hne => ?_, calls := fun c => ?_,
    entries := fun c array i storage ha hi hst => ?_, given := fun c o storage hc => ?_ }
  · have hcount := h.counted o
    by_cases ho : o = object
    · simp [ho]
    · simp only [Function.update_of_ne ho]
      omega
  · have hcount := h.counted o
    have hcount' := h.counted o'
    by_cases ho : o = object
    · by_cases ho' : o' = object
      · rw [ho, ho']
      · simp only [ho, Function.update_self, Function.update_of_ne ho'] at heq
        omega
    · by_cases ho' : o' = object
      · simp only [ho', Function.update_self, Function.update_of_ne ho] at heq
        omega
      · simp only [Function.update_of_ne ho, Function.update_of_ne ho'] at heq hne
        exact h.numbered o o' heq hne
  · have hok := h.calls c
    cases hcall : s.call c with
    | idle => trivial
    | loaded o offset =>
      rw [hcall] at hok
      obtain ⟨hhome, hoffset⟩ := hok
      refine ⟨(home_congr rfl).mpr hhome, ?_⟩
      by_cases ho : offset = 0
      · exact Or.inl ho
      · have heq : offset = s.offset o := hoffset.resolve_left ho
        exact Or.inr (heq.trans (hsame o (heq ▸ ho)).symm)
    | located o offset =>
      rw [hcall] at hok
      obtain ⟨hhome, hoffset, hne⟩ := hok
      exact ⟨(home_congr rfl).mpr hhome, hoffset.trans (hsame o (hoffset ▸ hne)).symm, hne⟩
  · obtain ⟨o, ho⟩ := h.entries c array i storage ha hi hst
    exact ⟨o, (hsame o (by omega)).trans ho⟩
  · rw [h.given c o storage ((home_congr rfl).mp hc)]
    by_cases ho : o = object
    · subst ho
      -- no array has an entry for the new number
      constructor
      · rintro ⟨array, -, hne, -⟩
        exact absurd hzero hne
      · rintro ⟨array, ha, -, hi, hst⟩
        simp only [Function.update_self, Nat.add_sub_cancel] at hi hst
        obtain ⟨o', ho'⟩ := h.entries c array _ storage ha hi hst
        have hcount := h.counted o'
        omega
    · simp only [Has, Function.update_of_ne ho]

theorem inv_offset (h : Inv objects s) {c : Context}
    (hs : step objects s (.offset c) = some s') : Inv objects s' := by
  unfold step at hs
  dsimp only at hs
  split at hs
  · rename_i object hcall
    have hok := h.calls c
    rw [hcall] at hok
    have halive := alive_of_call h (c := c) (by rw [hcall]; nofun)
    obtain ⟨⟨s₁, offset⟩, hassign, heq⟩ := Option.map_eq_some_iff.mp hs
    subst heq
    unfold Tls.assignOffset at hassign
    split at hassign
    · rename_i hne
      cases hassign
      exact inv_setCall h ⟨hok.1, rfl, hne⟩ halive
    · rename_i hzero
      split at hassign
      · cases hassign
      · cases hassign
        have hhome := (home_congr (s := s) rfl).mpr hok.1
        refine inv_setCall (inv_assign h (not_not.mp hzero)) ⟨hhome, ?_, ?_⟩ halive
        · simp
        · omega
  · rename_i object offset hoffset hcall
    have hok := h.calls c
    rw [hcall] at hok
    have halive := alive_of_call h (c := c) (by rw [hcall]; nofun)
    cases hs
    have hne : offset ≠ 0 := fun heq => hoffset heq
    exact inv_setCall h ⟨hok.1, hok.2.resolve_left hne, hne⟩ halive
  · cases hs

theorem inv_threadCreate (h : Inv objects s) {t : ThreadId} (ht : s.alive t = false) :
    Inv objects { s with
      alive := Function.update s.alive t true
      emutls := Function.update s.emutls (.thread t) none } := by
  have hsame : Function.update s.emutls (.thread t) none = s.emutls :=
    Function.update_eq_self_iff.mpr (h.dead t ht).1.symm
  rw [hsame]
  refine { h with dead := fun t' ht' => ?_ }
  by_cases htt : t' = t
  · simp [htt] at ht'
  · exact h.dead t' (by simpa [htt] using ht')

theorem inv_adoptStartup (h : Inv objects s) (halive : s.alive applicationThread = true)
    (hadopted : s.adopted = false) (hidle : s.call .startup = .idle) :
    Inv objects s.adoptStartup := by
  -- the application thread has no array of its own to destroy
  have hnone : s.emutls (.thread applicationThread) = none := by
    by_contra hne
    have htrue := h.homes _ hne rfl
    rw [hadopted] at htrue
    cases htrue
  have hsame : s.destroyEmutls (.thread applicationThread) = s := by
    unfold Tls.destroyEmutls
    rw [hnone]
  have hthread : ∀ t, t ≠ applicationThread → Function.update (Function.update s.emutls
      (.thread applicationThread) (s.emutls .startup)) .startup none (.thread t) =
        s.emutls (.thread t) := by
    intro t ht
    rw [Function.update_of_ne (by simp), Function.update_of_ne (by simpa using ht)]
  have happlication : Function.update (Function.update s.emutls (.thread applicationThread)
      (s.emutls .startup)) .startup none (.thread applicationThread) = s.emutls .startup := by
    rw [Function.update_of_ne (by simp), Function.update_self]
  unfold Tls.adoptStartup
  rw [hsame]
  refine { h with
    calls := fun c => ?_, homes := fun c hc => ?_, dead := fun t ht => ?_, started := fun _ => rfl,
    entries := fun c array i storage ha hi hst => ?_, given := fun c o storage hc => ?_ }
  · cases c with
    | startup =>
      dsimp only
      rw [hidle]
      trivial
    | thread t =>
      have hok := h.calls (.thread t)
      dsimp only
      cases hcall : s.call (.thread t) with
      | idle => trivial
      | loaded o offset =>
        rw [hcall] at hok
        exact ⟨fun _ => rfl, hok.2⟩
      | located o offset =>
        rw [hcall] at hok
        exact ⟨fun _ => rfl, hok.2⟩
  · cases c with
    | startup => simp at hc
    | thread t => exact fun _ => rfl
  · have hne : t ≠ applicationThread := fun heq => by
      rw [heq, halive] at ht
      cases ht
    exact ⟨(hthread t hne).trans (h.dead t ht).1, (h.dead t ht).2⟩
  · cases c with
    | startup => simp at ha
    | thread t =>
      by_cases ht : t = applicationThread
      · subst ht
        exact h.entries .startup array i storage (happlication.symm.trans ha) hi hst
      · exact h.entries (.thread t) array i storage ((hthread t ht).symm.trans ha) hi hst
  · cases c with
    | startup => cases hc
    | thread t =>
      by_cases ht : t = applicationThread
      · subst ht
        simp only [Has, happlication]
        exact h.given .startup o storage hadopted
      · simp only [Has, hthread t ht]
        exact h.given (.thread t) o storage fun heq => absurd heq ht

theorem apart_eq (h : Inv objects s) {a b : Storage} (ha : a ∈ s.heap) (hb : b ∈ s.heap)
    (heq : a.allocation = b.allocation) : a = b := by
  by_contra hne
  have hapart : a.Apart b := h.heap.forall ha hb hne
  have hlength := h.length a ha
  have hlength' := h.length b hb
  simp only [Storage.Apart] at hapart
  omega

theorem freed_given (h : Inv objects s) {c : Context} {array : EmutlsArray} {block : Storage}
    (ha : s.emutls c = some array) (hblock : block ∈ s.heap)
    (hfreed : ((List.range array.capacity).any fun i =>
      (array.entries i).any fun storage => storage.allocation = block.allocation) = true) :
    ∃ object, s.given c.owner object = some block := by
  obtain ⟨i, hi, hany⟩ := List.any_eq_true.mp hfreed
  rw [List.mem_range] at hi
  cases hentry : array.entries i with
  | none => simp [hentry] at hany
  | some storage =>
    have hallocation : storage.allocation = block.allocation := by simpa [hentry] using hany
    have hhome := h.homes c (by rw [ha]; nofun)
    obtain ⟨object, hoffset⟩ := h.entries c array i storage ha hi hentry
    have hgiven := (h.given c object storage hhome).mpr
      ⟨array, ha, by omega, by omega, by simpa [hoffset] using hentry⟩
    have heq := apart_eq h (h.owned _ _ _ hgiven).1 hblock hallocation
    exact ⟨object, heq ▸ hgiven⟩

theorem destroyEmutls_frame (s : Tls) (c : Context) :
    (s.destroyEmutls c).emutls = Function.update s.emutls c none ∧
      s.destroyEmutls c = { s with
        heap := (s.destroyEmutls c).heap, emutls := (s.destroyEmutls c).emutls } ∧
      (s.destroyEmutls c).heap.Sublist s.heap := by
  unfold Tls.destroyEmutls
  split
  · rename_i hnone
    exact ⟨(Function.update_eq_self_iff.mpr hnone.symm).symm, rfl, List.Sublist.refl _⟩
  · exact ⟨rfl, rfl, List.filter_sublist⟩

theorem inv_threadDelete (h : Inv objects s) (hstarted : s.started = true) {t : ThreadId} :
    Inv objects (s.threadDelete t) := by
  obtain ⟨hemutls, hframe, hheap⟩ := destroyEmutls_frame s (.thread t)
  have hhome : Home s (.thread t) := fun _ => h.started hstarted
  have hkeep : ∀ t' o storage, t' ≠ t → s.given t' o = some storage →
      storage ∈ (s.destroyEmutls (.thread t)).heap := by
    intro t' o storage ht hst
    have hin := (h.owned t' o storage hst).1
    cases ha : s.emutls (.thread t) with
    | none =>
      rw [Tls.destroyEmutls, ha]
      exact hin
    | some array =>
      rw [Tls.destroyEmutls, ha]
      refine List.mem_filter.mpr ⟨hin, ?_⟩
      rw [Bool.not_eq_true']
      by_contra hfreed
      obtain ⟨o', ho'⟩ := freed_given h ha hin (Bool.not_eq_false _ ▸ hfreed)
      exact ht (h.distinct _ _ _ _ _ hst ho').1
  have hother : ∀ c : Context, c ≠ .thread t →
      Function.update s.emutls (.thread t) none c = s.emutls c := fun c hc =>
    Function.update_of_ne hc ..
  unfold Tls.threadDelete
  rw [hframe, hemutls]
  refine ⟨h.counted, h.numbered, fun c => ?_, fun c hc => ?_, fun t' ht => ?_, h.started,
    fun c array i storage ha hi hst => ?_, fun c o storage hc => ?_, fun t' o storage hst => ?_,
    fun t' o t'' o' storage hst hst' => ?_, h.heap.sublist hheap,
    fun storage hst => h.length storage (hheap.subset hst)⟩
  · by_cases hct : c = .thread t
    · simp [hct, CallOk]
    · simp only [Function.update_of_ne hct]
      exact callOk_congr rfl rfl (h.calls c)
  · by_cases hct : c = .thread t
    · exact hct ▸ hhome
    · exact h.homes c (by simpa [hct] using hc)
  · by_cases htt : t' = t
    · simp [htt]
    · simpa [htt] using h.dead t' (by simpa [htt] using ht)
  · by_cases hct : c = .thread t
    · simp [hct] at ha
    · exact h.entries c array i storage (by simpa [hct] using ha) hi hst
  · by_cases hct : c = .thread t
    · simp [hct, Context.owner, Has]
    · have howner : c.owner ≠ t := fun heq => hct (home_unique hc hhome heq)
      simpa [hct, howner, Has] using h.given c o storage hc
  · by_cases htt : t' = t
    · simp [htt] at hst
    · simp only [Function.update_of_ne htt] at hst
      exact ⟨hkeep t' o storage htt hst, (h.owned t' o storage hst).2⟩
  · by_cases htt : t' = t
    · simp [htt] at hst
    · by_cases htt' : t'' = t
      · simp [htt'] at hst'
      · simp only [Function.update_of_ne htt, Function.update_of_ne htt'] at hst hst'
        exact h.distinct t' o t'' o' storage hst hst'

/-- The startup context makes no call after its array was handed over. -/
def UsesOneTable (s : Tls) : Action → Prop
  | .call .startup _ => s.adopted = false
  | _ => True

instance (s : Tls) : (action : Action) → Decidable (UsesOneTable s action)
  | .call .startup _ => inferInstanceAs (Decidable (_ = _))
  | .call (.thread _) _ => isTrue trivial
  | .threadCreate _ | .adoptStartup | .start | .offset _ | .finish .. | .threadDelete _ =>
    isTrue trivial

theorem inv_step (h : Inv objects s) {action : Action} (hone : UsesOneTable s action)
    (hs : step objects s action = some s') : Inv objects s' := by
  cases action with
  | threadCreate t =>
    simp only [step, Option.ite_none_left_eq_some, Option.some.injEq] at hs
    obtain ⟨hdead, rfl⟩ := hs
    exact inv_threadCreate h ((Bool.not_eq_true _).mp hdead)
  | adoptStartup =>
    simp only [step, Option.ite_none_right_eq_some, Option.some.injEq] at hs
    obtain ⟨⟨halive, hadopted, -, hidle⟩, rfl⟩ := hs
    exact inv_adoptStartup h halive (by simpa using hadopted) hidle
  | start =>
    simp only [step, Option.ite_none_right_eq_some, Option.some.injEq] at hs
    obtain ⟨⟨hadopted, -⟩, rfl⟩ := hs
    exact { h with started := fun _ => hadopted }
  | call c object =>
    simp only [step, Option.ite_none_right_eq_some, Option.some.injEq] at hs
    obtain ⟨⟨hruns, -⟩, rfl⟩ := hs
    cases c with
    | startup => exact inv_setCall h ⟨hone, Or.inr rfl⟩ nofun
    | thread t =>
      simp only [Tls.runs, Bool.and_eq_true] at hruns
      refine inv_setCall h ⟨fun _ => h.started hruns.1, Or.inr rfl⟩ fun t' ht' => ?_
      cases ht'
      exact hruns.2
  | offset c => exact inv_offset h hs
  | finish c allocation garbage =>
    obtain ⟨⟨s₁, storage, created⟩, hfinish, rfl⟩ := Option.map_eq_some_iff.mp hs
    obtain ⟨object, array, hf⟩ := finish_cases h hfinish
    exact inv_finish h hf
  | threadDelete t =>
    simp only [step, Option.ite_none_right_eq_some, Option.some.injEq] at hs
    obtain ⟨⟨hstarted, -⟩, rfl⟩ := hs
    exact inv_threadDelete h hstarted

theorem inv_reached (h : Runs.Reached (step objects) UsesOneTable initial s) : Inv objects s :=
  h.invariant inv_initial fun _ _ _ hinv hone hs => inv_step hinv hone hs

end

/-- The end of a call gives out what the thread already has for the object, or storage of its own
that holds the template. -/
def Answers (objects : ObjectId → EmutlsObject) (s : Tls) : Prop :=
  ∀ c object offset, s.call c = .located object offset → ∀ allocation garbage s' storage created,
    s.finish objects c allocation garbage = some (s', storage, created) →
      s'.given c.owner object = some storage ∧
      (∀ earlier, s.given c.owner object = some earlier → storage = earlier ∧ created = none) ∧
      (s.given c.owner object = none → created = some (template (objects object)))

/-- The entry of a call is in the array's capacity, and growing keeps the entries. -/
def StaysInside (objects : ObjectId → EmutlsObject) (s : Tls) : Prop :=
  ∀ c object offset, s.call c = .located object offset → ∀ allocation garbage s' storage created,
    s.finish objects c allocation garbage = some (s', storage, created) →
      ∃ array, s'.emutls c = some array ∧ 0 < offset ∧ offset - 1 < array.capacity ∧
        array.entries (offset - 1) = some storage ∧
        ∀ old, s.emutls c = some old → old.capacity ≤ array.capacity ∧
          ∀ i < old.capacity, old.entries i ≠ none → array.entries i = old.entries i

/-- Different threads or objects have no byte in common, nor an address. -/
def Separates (objects : ObjectId → EmutlsObject) (s : Tls) : Prop :=
  ∀ t object t' object' storage storage', s.given t object = some storage →
    s.given t' object' = some storage' → ¬ (t = t' ∧ object = object') →
      storage.address ≠ storage'.address ∧
      (storage.address + (objects object).size ≤ storage'.address ∨
        storage'.address + (objects object').size ≤ storage.address)

/-- Only the end of a thread takes its storage away; the adoption does not. -/
def Keeps (objects : ObjectId → EmutlsObject) (s : Tls) : Prop :=
  ∀ action s', step objects s action = some s' → ∀ t object storage,
    s.given t object = some storage → (∀ t', action = .threadDelete t' → t' ≠ t) →
      s'.given t object = some storage

structure Serves (objects : ObjectId → EmutlsObject) (s : Tls) : Prop where
  answers : Answers objects s
  inside : StaysInside objects s
  separates : Separates objects s
  keeps : Keeps objects s

section
variable {objects : ObjectId → EmutlsObject} {s s' : Tls}

theorem Finished.of_located (h : Inv objects s) {c : Context} {object : ObjectId} {offset : Nat}
    (hcall : s.call c = .located object offset) {allocation : Nat}
    {garbage : Nat → Option Storage} {storage : Storage} {created : Option (List UInt8)}
    (hs : s.finish objects c allocation garbage = some (s', storage, created)) :
    offset = s.offset object ∧ ∃ array, Finished objects s s' c object array storage created := by
  obtain ⟨o, array, hf⟩ := finish_cases h hs
  have hsame := hf.call
  rw [hcall] at hsame
  cases hsame
  exact ⟨rfl, array, hf⟩

theorem Finished.again (h : Inv objects s) {c : Context} {object : ObjectId}
    {array : EmutlsArray} {storage earlier : Storage} {created : Option (List UInt8)}
    (hf : Finished objects s s' c object array storage created)
    (hearlier : s.given c.owner object = some earlier) : storage = earlier ∧ created = none := by
  obtain ⟨-, -, hgiven⟩ := hf.entry_iff h
  cases hc : created with
  | none =>
    rw [hf.entry hc, hearlier] at hgiven
    exact ⟨(Option.some.inj hgiven).symm, rfl⟩
  | some contents =>
    rw [(hf.fresh contents hc).1, hearlier] at hgiven
    cases hgiven

theorem inv_answers (h : Inv objects s) : Answers objects s := by
  intro c object offset hcall allocation garbage s' storage created hs
  obtain ⟨-, array, hf⟩ := Finished.of_located h hcall hs
  refine ⟨?_, fun earlier hearlier => hf.again h hearlier, fun hnone => ?_⟩
  · rw [hf.result]
    simp only [Function.update_self]
  · obtain ⟨-, -, hgiven⟩ := hf.entry_iff h
    cases hc : created with
    | none =>
      rw [hf.entry hc, hnone] at hgiven
      cases hgiven
    | some contents => rw [(hf.fresh contents hc).2.1]

theorem inv_inside (h : Inv objects s) : StaysInside objects s := by
  intro c object offset hcall allocation garbage s' storage created hs
  obtain ⟨rfl, array, hf⟩ := Finished.of_located h hcall hs
  obtain ⟨-, hoffset, hentry⟩ := hf.entry_iff h
  have hroom := hf.grown.room
  refine ⟨_, by rw [hf.result]; exact Function.update_self .., by omega, ?_, Function.update_self ..,
    fun old hold => ⟨?_, fun i hi hne => ?_⟩⟩
  · dsimp only
    omega
  · by_contra hlt
    have hkept := hf.grown.kept old hold array.capacity (Nat.lt_of_not_le hlt)
    exact Nat.lt_irrefl _ hkept.1
  · have hkept := (hf.grown.kept old hold i hi).2
    dsimp only
    by_cases heq : i = s.offset object - 1
    · subst heq
      rw [Function.update_self]
      cases hc : created with
      | none => rw [← hkept, hf.entry hc]
      | some contents => exact absurd (hkept ▸ (hf.fresh contents hc).1) hne
    · rw [Function.update_of_ne heq, hkept]

theorem inv_separates (h : Inv objects s) : Separates objects s := by
  intro t object t' object' storage storage' hst hst' hne
  obtain ⟨hin, hfits⟩ := h.owned t object storage hst
  obtain ⟨hin', hfits'⟩ := h.owned t' object' storage' hst'
  have hdifferent : storage ≠ storage' := fun heq =>
    hne (h.distinct t object t' object' storage hst (heq ▸ hst'))
  have hapart := h.heap.forall hin hin' hdifferent
  have hheader := hfits.header
  have hroom := hfits.room
  have hheader' := hfits'.header
  have hroom' := hfits'.room
  simp only [Storage.Apart, pointerSize] at *
  omega

theorem given_of_offset {c : Context} (hs : step objects s (.offset c) = some s') :
    s'.given = s.given := by
  unfold step at hs
  dsimp only at hs
  split at hs
  · obtain ⟨⟨s₁, offset⟩, hassign, rfl⟩ := Option.map_eq_some_iff.mp hs
    unfold Tls.assignOffset at hassign
    split at hassign
    · cases hassign
      rfl
    · split at hassign
      · cases hassign
      · cases hassign
        rfl
  · cases hs
    rfl
  · cases hs

theorem inv_keeps (h : Inv objects s) : Keeps objects s := by
  intro action s' hs t object storage hgiven hdelete
  cases action with
  | threadCreate t' =>
    simp only [step, Option.ite_none_left_eq_some, Option.some.injEq] at hs
    obtain ⟨-, rfl⟩ := hs
    exact hgiven
  | adoptStartup =>
    simp only [step, Option.ite_none_right_eq_some, Option.some.injEq] at hs
    obtain ⟨-, rfl⟩ := hs
    rw [Tls.adoptStartup, (destroyEmutls_frame s _).2.1]
    exact hgiven
  | start =>
    simp only [step, Option.ite_none_right_eq_some, Option.some.injEq] at hs
    obtain ⟨-, rfl⟩ := hs
    exact hgiven
  | call c o =>
    simp only [step, Option.ite_none_right_eq_some, Option.some.injEq] at hs
    obtain ⟨-, rfl⟩ := hs
    exact hgiven
  | offset c => rw [given_of_offset hs, hgiven]
  | finish c allocation garbage =>
    obtain ⟨⟨s₁, storage', created⟩, hfinish, rfl⟩ := Option.map_eq_some_iff.mp hs
    obtain ⟨o, array, hf⟩ := finish_cases h hfinish
    dsimp only
    rw [hf.result]
    by_cases hto : t = c.owner ∧ object = o
    · obtain ⟨rfl, rfl⟩ := hto
      simp only [Function.update_self]
      rw [(hf.again h hgiven).1]
    · by_cases ht : t = c.owner
      · have ho : object ≠ o := fun ho => hto ⟨ht, ho⟩
        subst ht
        simpa [ho] using hgiven
      · simpa [ht] using hgiven
  | threadDelete t' =>
    simp only [step, Option.ite_none_right_eq_some, Option.some.injEq] at hs
    obtain ⟨-, rfl⟩ := hs
    have hne := (hdelete t' rfl).symm
    rw [Tls.threadDelete, (destroyEmutls_frame s _).2.1]
    simpa [hne] using hgiven

theorem tls_serves (h : Runs.Reached (step objects) UsesOneTable initial s) : Serves objects s :=
  have hinv := inv_reached h
  ⟨inv_answers hinv, inv_inside hinv, inv_separates hinv, inv_keeps hinv⟩

end

def probes : ObjectId → EmutlsObject
  | 0 => ⟨4, 4, some [0xEE, 0xFF, 0xC0, 0x00]⟩
  | _ => ⟨2, 8, none⟩

def use (c : Context) (object : ObjectId) (allocation : Nat) : List Action :=
  [.call c object, .offset c, .finish c allocation fun _ => none]

/-- Objects used before the adoption, and again by the application thread and another one. -/
def usedBefore : List Action :=
  use .startup 1 100 ++ use .startup 0 200 ++ [.threadCreate 0, .adoptStartup, .start] ++
    use (.thread 0) 0 300 ++ [.threadCreate 1] ++ use (.thread 1) 0 400 ++ use (.thread 0) 1 500

theorem tls_serves_usedBefore : ∃ s, Runs.perform (step probes) initial usedBefore = some s ∧
    Serves probes s ∧ s.given 0 0 = some ⟨200, 11, 204⟩ ∧ s.given 0 1 = some ⟨100, 13, 104⟩ ∧
    s.given 1 0 = some ⟨400, 11, 404⟩ := by
  have hsome : (Runs.perform (step probes) initial usedBefore).isSome := by decide +kernel
  obtain ⟨s, hs⟩ := Option.isSome_iff_exists.mp hsome
  have hone : Runs.Performs (step probes) UsesOneTable initial usedBefore := by decide +kernel
  have hgiven : (Runs.perform (step probes) initial usedBefore).map
      (fun s => (s.given 0 0, s.given 0 1, s.given 1 0)) =
        some (some ⟨200, 11, 204⟩, some ⟨100, 13, 104⟩, some ⟨400, 11, 404⟩) := by decide +kernel
  rw [hs, Option.map_some, Option.some.injEq] at hgiven
  simp only [Prod.mk.injEq] at hgiven
  exact ⟨s, hs, tls_serves (Runs.reached_of_perform hs hone), hgiven⟩

/-- An object used between the adoption and the start of the scheduler. -/
def usedBetween : List Action :=
  [.threadCreate 0, .adoptStartup] ++ use .startup 0 100 ++
    [.start, .call (.thread 0) 0, .offset (.thread 0)]

theorem tls_not_serves : ¬ ∀ objects s,
    Runs.Reached (step objects) (fun _ _ => True) initial s → Serves objects s := by
  intro hall
  have hsome : (Runs.perform (step probes) initial usedBetween).isSome := by decide +kernel
  obtain ⟨s, hs⟩ := Option.isSome_iff_exists.mp hsome
  have hserves := hall probes s
    (Runs.reached_of_perform hs (Runs.performs_always (fun _ _ => trivial) initial))
  have hcall : (Runs.perform (step probes) initial usedBetween).map
      (fun s => (s.call (.thread 0), s.given 0 0)) =
        some (.located 0 1, some ⟨100, 11, 104⟩) := by decide +kernel
  have hfinish : (Runs.perform (step probes) initial usedBetween).map
      (fun s => (s.finish probes (.thread 0) 200 fun _ => none).map (·.2.1)) =
        some (some ⟨200, 11, 204⟩) := by decide +kernel
  rw [hs, Option.map_some, Option.some.injEq] at hcall hfinish
  obtain ⟨hcall, hgiven⟩ := Prod.mk.inj hcall
  obtain ⟨⟨s', storage, created⟩, hfinish, rfl⟩ := Option.map_eq_some_iff.mp hfinish
  obtain ⟨-, hearlier, -⟩ := hserves.answers _ _ _ hcall _ _ _ _ _ hfinish
  have hsame := (hearlier _ hgiven).1
  cases hsame

end SimPLCity.ThreadStorage
