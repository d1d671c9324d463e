import SimPLCity.ReceiveSlots

/-! Every receive slot is free, lent to the HAL, in the chain that the HAL links, or in the chain that
`receive` holds. A packet's slots are released in order, once each. -/

namespace SimPLCity.SlotConservation
open EtherTypes FrameReceive LinkedChain ReceiveSlots

/-- The chain that `receive` has still to release. -/
def first : Phase → Option Nat
  | .holding _ packet => some packet
  | .releasing _ packet _ => packet
  | _ => none

/-- Who has the slots: `building` is the HAL's chain and `held` the rest of that of `receive`. -/
structure Owned (s : Driver) (building held : List Nat) : Prop where
  chain : Chain s.next s.rxStart building
  rxEnd : building ≠ [] → building.getLast? = s.rxEnd
  rest : Chain s.next (first s.phase) held
  nodup : (s.lent ++ (building ++ held)).Nodup
  allocated : ∀ i, i ∈ s.lent ++ (building ++ held) ↔ i < rxSlotCount ∧ (s.slots i).allocated = true
  counts : ∀ i, s.handedOut i = s.takenBack i + if (s.slots i).allocated then 1 else 0
  obtained : s.obtained = s.released ++ held
  once : s.obtained.Nodup

/-- What the chains hold: the fragments that were linked, in that order. -/
structure Holds (s : Driver) (building held : List Nat) : Prop where
  buffers : ∀ i ∈ building ++ held, (s.slots i).link.buffer = some i
  data : ∀ i, (s.slots i).data.length = ethDmaFrameBufferSize
  linked : building.map s.fragment = s.linked
  packet : ∀ frame packet, s.phase = .holding frame packet → held.map s.fragment = s.packet
  copied : ∀ frame first n, s.phase = .releasing frame first (some (.ok n)) →
    n = packetSize s.packet ∧ frame.take n = contents s.packet
  returned : ∀ n frame, s.returned = some (.ok n, frame) →
    s.phase = .idle ∧ n = packetSize s.packet ∧ frame.take n = contents s.packet

def Inv (s : Driver) : Prop := ∃ building held, Owned s building held ∧ Holds s building held

section
variable {s s' : Driver} {building held : List Nat}

theorem inv_initial : Inv initial :=
  ⟨[], [], ⟨.nil, fun h => absurd rfl h, .nil, List.nodup_nil, by simp [initial], fun _ => rfl, rfl,
    List.nodup_nil⟩, ⟨by simp, fun _ => List.length_replicate, rfl, by simp [initial],
    by simp [initial], by simp [initial]⟩⟩

theorem chain_kept {p : Option Nat} {l : List Nat} (hchain : Chain s.next p l)
    (hbuffers : ∀ i ∈ l, (s.slots i).link.buffer = some i) (hkeep : ∀ i ∈ l, s'.slots i = s.slots i) :
    Chain s'.next p l ∧ (∀ i ∈ l, (s'.slots i).link.buffer = some i) ∧
      l.map s'.fragment = l.map s.fragment := by
  refine ⟨hchain.congr fun i hi => ?_, fun i hi => ?_, List.map_congr_left fun i hi => ?_⟩
  · rw [Driver.next, hkeep i hi, Driver.next]
  · rw [hkeep i hi]
    exact hbuffers i hi
  · simp only [Driver.fragment, hkeep i hi, hbuffers i hi, Option.map_some]

theorem Holds.buffers_building (hh : Holds s building held) :
    ∀ i ∈ building, (s.slots i).link.buffer = some i :=
  fun i hi => hh.buffers i (List.mem_append_left held hi)

theorem Holds.buffers_held (hh : Holds s building held) :
    ∀ i ∈ held, (s.slots i).link.buffer = some i :=
  fun i hi => hh.buffers i (List.mem_append_right building hi)

theorem find_first_free {slots : Slots} {i : Nat}
    (h : ((List.range rxSlotCount).find? fun candidate => !(slots candidate).allocated) = some i) :
    i < rxSlotCount ∧ (slots i).allocated = false := by
  refine ⟨List.mem_range.mp (List.mem_of_find?_eq_some h), ?_⟩
  simpa using List.find?_some h

theorem find_slot {i : Nat} {p : Nat → Bool} (hi : i < rxSlotCount) (hp : ∀ j, p j = true ↔ j = i) :
    (List.range rxSlotCount).find? p = some i := by
  cases h : (List.range rxSlotCount).find? p with
  | none => exact absurd ((hp i).mpr rfl) (List.find?_eq_none.mp h i (List.mem_range.mpr hi))
  | some j => rw [(hp j).mp (List.find?_some h)]

theorem allocate_cases (s : Driver) : s.allocate = s ∨ ∃ i, i < rxSlotCount ∧
    (s.slots i).allocated = false ∧ s.allocate = { s with
      slots := Function.update s.slots i { s.slots i with allocated := true, link := {} }
      lent := s.lent ++ [i]
      handedOut := Function.update s.handedOut i (s.handedOut i + 1) } := by
  unfold Driver.allocate rxAllocateCallback
  cases hfind : (List.range rxSlotCount).find? fun candidate => !(s.slots candidate).allocated with
  | none => exact Or.inl rfl
  | some i =>
    obtain ⟨hi, hfree⟩ := find_first_free hfind
    exact Or.inr ⟨i, hi, hfree, rfl⟩

theorem inv_allocate (h : Inv s) : Inv s.allocate := by
  rcases allocate_cases s with heq | ⟨i, hi, hfree, heq⟩
  · rwa [heq]
  obtain ⟨building, held, ho, hh⟩ := h
  rw [heq]
  have hnot : i ∉ s.lent ++ (building ++ held) := fun hmem => by
    have htaken := ((ho.allocated i).mp hmem).2
    rw [hfree] at htaken
    cases htaken
  have hkeep : ∀ j ∈ building ++ held, Function.update s.slots i
      { s.slots i with allocated := true, link := {} } j = s.slots j := by
    intro j hj
    have hne : j ≠ i := fun heq => hnot (List.mem_append_right _ (heq ▸ hj))
    exact Function.update_of_ne hne ..
  have hperm : (s.lent ++ [i] ++ (building ++ held)).Perm (i :: (s.lent ++ (building ++ held))) := by
    rw [List.append_assoc]
    exact List.perm_middle
  have kept {p l} (hchain : Chain s.next p l) (hbuffers) (hl : ∀ j ∈ l, j ∈ building ++ held) :=
    @chain_kept s { s with
      slots := Function.update s.slots i { s.slots i with allocated := true, link := {} }
      lent := s.lent ++ [i]
      handedOut := Function.update s.handedOut i (s.handedOut i + 1) } p l hchain hbuffers
      fun j hj => hkeep j (hl j hj)
  obtain ⟨hchain, hbuffersb, hlinked⟩ := kept ho.chain hh.buffers_building (by simp +contextual)
  obtain ⟨hrest, hbuffersh, hpacket⟩ := kept ho.rest hh.buffers_held (by simp +contextual)
  refine ⟨building, held, ⟨hchain, ho.rxEnd, hrest,
    hperm.nodup_iff.mpr (List.nodup_cons.mpr ⟨hnot, ho.nodup⟩), fun j => ?_, fun j => ?_,
    ho.obtained, ho.once⟩, ⟨List.forall_mem_append.mpr ⟨hbuffersb, hbuffersh⟩, fun j => ?_,
    hlinked.trans hh.linked, fun frame packet hp => hpacket.trans (hh.packet frame packet hp), hh.copied,
    hh.returned⟩⟩
  · rw [hperm.mem_iff, List.mem_cons, ho.allocated j]
    by_cases hj : j = i
    · simp [hj, hi]
    · simp [hj]
  · have hcount := ho.counts j
    by_cases hj : j = i
    · subst hj
      simp [hcount, hfree]
    · simpa [hj] using hcount
  · by_cases hj : j = i
    · simpa [hj] using hh.data i
    · simpa [hj] using hh.data j

theorem Owned.lent_ne (ho : Owned s building held) {b j : Nat} (hb : b ∈ s.lent)
    (hj : j ∈ building ++ held) : j ≠ b :=
  ((List.nodup_append.mp ho.nodup).2.2 b hb j hj).symm

theorem inv_fill (h : Inv s) {b : Nat} {bytes : List UInt8} (hb : b ∈ s.lent)
    (hfit : bytes.length ≤ ethDmaFrameBufferSize) : Inv (s.fill b bytes) := by
  obtain ⟨building, held, ho, hh⟩ := h
  have hkeep : ∀ j ∈ building ++ held, (s.fill b bytes).slots j = s.slots j :=
    fun j hj => Function.update_of_ne (ho.lent_ne hb hj) ..
  have hallocated : ∀ j, ((s.fill b bytes).slots j).allocated = (s.slots j).allocated := by
    intro j
    by_cases hj : j = b
    · simp [Driver.fill, hj]
    · simp [Driver.fill, hj]
  obtain ⟨hchain, hbuffersb, hlinked⟩ := chain_kept ho.chain hh.buffers_building
    fun j hj => hkeep j (List.mem_append_left held hj)
  obtain ⟨hrest, hbuffersh, hpacket⟩ := chain_kept ho.rest hh.buffers_held
    fun j hj => hkeep j (List.mem_append_right building hj)
  refine ⟨building, held, ⟨hchain, ho.rxEnd, hrest, ho.nodup, fun j => ?_, fun j => ?_, ho.obtained,
    ho.once⟩, ⟨List.forall_mem_append.mpr ⟨hbuffersb, hbuffersh⟩, fun j => ?_, hlinked.trans hh.linked,
    fun frame packet hp => hpacket.trans (hh.packet frame packet hp), hh.copied, hh.returned⟩⟩
  · rw [hallocated]
    exact ho.allocated j
  · rw [hallocated]
    exact ho.counts j
  · by_cases hj : j = b
    · have := hh.data b
      simp [Driver.fill, hj]
      omega
    · simpa [Driver.fill, hj] using hh.data j

theorem link_slots {b : Nat} (length : Nat) (hb : b < rxSlotCount) :
    s.link b length = { s with
      slots := if s.rxStart = none then
          Function.update s.slots b { s.slots b with link := ⟨some b, length, none⟩ }
        else setNext (Function.update s.slots b { s.slots b with link := ⟨some b, length, none⟩ })
          s.rxEnd (some b)
      rxStart := if s.rxStart = none then some b else s.rxStart
      rxEnd := some b
      lent := s.lent.erase b
      linked := s.linked ++ [⟨(s.slots b).data, length⟩] } := by
  have hfind : findSlot (some b) = some b := find_slot hb (by simp [eq_comm])
  unfold Driver.link rxLinkCallback
  rw [hfind]
  by_cases hstart : s.rxStart = none
  · simp [hstart]
  · simp [hstart]

/-- Behind the chain the slot `b` is linked; nothing else changes. -/
structure Linked (s s' : Driver) (building : List Nat) (b length : Nat) : Prop where
  chain : Chain s'.next s'.rxStart (building ++ [b])
  link : (s'.slots b).link.buffer = some b ∧ (s'.slots b).link.len = length
  other : ∀ j, j ≠ b → (s'.slots j).link.buffer = (s.slots j).link.buffer ∧
    (s'.slots j).link.len = (s.slots j).link.len
  apart : ∀ j, j ≠ b → j ∉ building → s'.next j = s.next j
  data : ∀ j, (s'.slots j).data = (s.slots j).data
  allocated : ∀ j, (s'.slots j).allocated = (s.slots j).allocated

theorem linked_link (ho : Owned s building held) {b : Nat} (length : Nat) (hb : b ∈ s.lent) :
    Linked s (s.link b length) building b length := by
  have hlt : b < rxSlotCount := ((ho.allocated b).mp (List.mem_append_left _ hb)).1
  have hne : ∀ j ∈ building, j ≠ b := fun j hj => ho.lent_ne hb (List.mem_append_left held hj)
  have hnodup : building.Nodup := (List.nodup_append.mp (List.nodup_append.mp ho.nodup).2.1).1
  rw [link_slots length hlt]
  cases hstart : s.rxStart with
  | none =>
    have hchain := ho.chain
    rw [hstart] at hchain
    cases hchain
    refine ⟨.cons ?_, ?_, fun j hj => ?_, fun j hj _ => ?_, fun j => ?_, fun j => ?_⟩
    · simp only [Driver.next, if_true, Function.update_self]
      exact .nil
    · simp
    · simp [hj]
    · simp [Driver.next, hj]
    · by_cases hj : j = b <;> simp [hj]
    · by_cases hj : j = b <;> simp [hj]
  | some start =>
    have hbuilding : building ≠ [] := fun heq => by
      have hchain := ho.chain
      rw [hstart, heq] at hchain
      cases hchain
    have hlast := ho.rxEnd hbuilding
    obtain ⟨e, he⟩ : ∃ e, s.rxEnd = some e := by
      cases h : s.rxEnd with
      | none => exact absurd (List.getLast?_eq_none_iff.mp (hlast.trans h)) hbuilding
      | some e => exact ⟨e, rfl⟩
    rw [he] at hlast ⊢
    have hemem : e ∈ building := List.mem_of_getLast? hlast
    have heb : e ≠ b := hne e hemem
    simp only [reduceCtorEq, if_false, setNext]
    refine ⟨?_, ?_, fun j hj => ?_, fun j hj hnot => ?_, fun j => ?_, fun j => ?_⟩
    · refine Chain.concat (hstart ▸ ho.chain) hnodup hlast ?_ ?_ fun j hj hje => ?_
      · simp [Driver.next]
      · simp [Driver.next, heb.symm]
      · simp [Driver.next, hje, hne j hj]
    · simp [heb.symm]
    · by_cases hje : j = e
      · simp [hje, heb]
      · simp [hje, hj]
    · have hje : j ≠ e := fun heq => hnot (heq ▸ hemem)
      simp [Driver.next, hje, hj]
    · by_cases hje : j = e
      · simp [hje, heb]
      · by_cases hj : j = b <;> simp [hje, hj, heb.symm]
    · by_cases hje : j = e
      · simp [hje, heb]
      · by_cases hj : j = b <;> simp [hje, hj, heb.symm]

theorem inv_link (h : Inv s) {b length : Nat} (hb : b ∈ s.lent) : Inv (s.link b length) := by
  obtain ⟨building, held, ho, hh⟩ := h
  have hlt : b < rxSlotCount := ((ho.allocated b).mp (List.mem_append_left _ hb)).1
  have hlink := linked_link ho length hb
  have hne : ∀ j ∈ building ++ held, j ≠ b := fun j hj => ho.lent_ne hb hj
  have hfields := link_slots (s := s) length hlt
  have hphase : (s.link b length).phase = s.phase := by rw [hfields]
  have hlent : (s.link b length).lent = s.lent.erase b := by rw [hfields]
  have hperm : (s.lent.erase b ++ (building ++ [b] ++ held)).Perm (s.lent ++ (building ++ held)) := by
    have h₁ : (building ++ [b] ++ held).Perm (b :: (building ++ held)) := by
      rw [List.append_assoc]
      exact List.perm_middle
    exact ((h₁.append_left _).trans List.perm_middle).trans
      ((List.perm_cons_erase hb).symm.append_right (building ++ held))
  have hfragment : ∀ j ∈ building ++ held, (s.link b length).fragment j = s.fragment j := by
    intro j hj
    obtain ⟨hbuffer, hlen⟩ := hlink.other j (hne j hj)
    simp only [Driver.fragment, hbuffer, hlen, hh.buffers j hj, Option.map_some, hlink.data]
  have hdisjoint : ∀ j ∈ held, j ∉ building := fun j hj hmem =>
    (List.nodup_append.mp (List.nodup_append.mp ho.nodup).2.1).2.2 j hmem j hj rfl
  refine ⟨building ++ [b], held, ⟨hlink.chain, fun _ => ?_, ?_, ?_, fun j => ?_, fun j => ?_, ?_, ?_⟩,
    ⟨fun j hj => ?_, fun j => ?_, ?_, ?_, ?_, ?_⟩⟩
  · rw [hfields]
    exact List.getLast?_concat
  · rw [hphase]
    exact ho.rest.congr fun j hj =>
      hlink.apart j (hne j (List.mem_append_right building hj)) (hdisjoint j hj)
  · rw [hlent]
    exact hperm.nodup_iff.mpr ho.nodup
  · rw [hlent, hperm.mem_iff, hlink.allocated]
    exact ho.allocated j
  · rw [hlink.allocated, hfields]
    exact ho.counts j
  · rw [hfields]
    exact ho.obtained
  · rw [hfields]
    exact ho.once
  · by_cases hjb : j = b
    · rw [hjb]
      exact hlink.link.1
    · rw [(hlink.other j hjb).1]
      refine hh.buffers j ?_
      simp only [List.mem_append, List.mem_singleton] at hj ⊢
      rcases hj with (hj | hj) | hj
      · exact Or.inl hj
      · exact absurd hj hjb
      · exact Or.inr hj
  · rw [hlink.data]
    exact hh.data j
  · have hb' : (s.link b length).fragment b = ⟨(s.slots b).data, length⟩ := by
      simp only [Driver.fragment, hlink.link.1, hlink.link.2, Option.map_some, hlink.data,
        Option.getD_some]
    rw [List.map_append, List.map_singleton, hb',
      List.map_congr_left fun j hj => hfragment j (List.mem_append_left held hj), hh.linked, hfields]
  · intro frame packet hp
    rw [hphase] at hp
    rw [List.map_congr_left fun j hj => hfragment j (List.mem_append_right building hj), hfields]
    exact hh.packet frame packet hp
  · rw [hfields]
    exact hh.copied
  · rw [hfields]
    exact hh.returned

theorem inv_phase (h : Inv s) {phase : Phase} (hfirst : first s.phase = none) (hnone : first phase = none)
    (hidle : s.phase ≠ .idle) (hphase : ∀ frame packet result, phase ≠ .releasing frame packet result) :
    Inv { s with phase := phase } := by
  obtain ⟨building, held, ho, hh⟩ := h
  refine ⟨building, held, ⟨ho.chain, ho.rxEnd, ?_, ho.nodup, ho.allocated, ho.counts, ho.obtained,
    ho.once⟩, ⟨hh.buffers, hh.data, hh.linked, fun frame packet hp => ?_, fun frame packet n hp => ?_,
    fun n frame hr => ?_⟩⟩
  · have hrest := ho.rest
    rw [hfirst] at hrest
    simp only [hnone]
    exact hrest
  · simp only at hp
    rw [hp] at hnone
    cases hnone
  · exact absurd hp (hphase frame packet _)
  · exact absurd (hh.returned n frame hr).1 hidle

theorem inv_error (h : Inv s) (hfirst : first s.phase = none) (error : Errc) (frame : Frame) :
    Inv { s with phase := .idle, returned := some (.error error, frame) } := by
  obtain ⟨building, held, ho, hh⟩ := h
  have hrest := ho.rest
  rw [hfirst] at hrest
  exact ⟨building, held, ⟨ho.chain, ho.rxEnd, hrest, ho.nodup, ho.allocated, ho.counts, ho.obtained,
    ho.once⟩, ⟨hh.buffers, hh.data, hh.linked, by simp, by simp, by simp⟩⟩

theorem inv_call (h : Inv s) (hidle : s.phase = .idle) (running : Bool) (frame : Frame)
    (timeout : Int) : Inv (s.call running frame timeout) := by
  have hfirst : first s.phase = none := by rw [hidle]; rfl
  have hsame : ∀ r, { s with returned := r } = { s with phase := .idle, returned := r } := by
    intro r
    rw [← hidle]
  unfold Driver.call
  split
  · rw [hsame]
    exact inv_error h hfirst _ _
  split
  · rw [hsame]
    exact inv_error h hfirst _ _
  · obtain ⟨building, held, ho, hh⟩ := h
    have hrest := ho.rest
    rw [hfirst] at hrest
    exact ⟨building, held, ⟨ho.chain, ho.rxEnd, hrest, ho.nodup, ho.allocated, ho.counts, ho.obtained,
      ho.once⟩, ⟨hh.buffers, hh.data, hh.linked, by simp, by simp, by simp⟩⟩

theorem Owned.length_le (ho : Owned s building held) :
    building.length ≤ rxSlotCount ∧ held.length ≤ rxSlotCount := by
  have hall : ∀ l : List Nat, l.Nodup → (∀ i ∈ l, i ∈ s.lent ++ (building ++ held)) →
      l.length ≤ rxSlotCount := by
    intro l hl hmem
    have hsub : l ⊆ List.range rxSlotCount :=
      fun i hi => List.mem_range.mpr ((ho.allocated i).mp (hmem i hi)).1
    simpa using List.Nodup.length_le_of_subset hl hsub
  have hnodup := List.nodup_append.mp (List.nodup_append.mp ho.nodup).2.1
  exact ⟨hall _ hnodup.1 (by simp +contextual), hall _ hnodup.2.1 (by simp +contextual)⟩

theorem inv_readData (h : Inv s) {frame : Frame} (hphase : s.phase = .reading frame)
    (complete : Bool) : Inv (s.readData frame complete) := by
  have hfirst : first s.phase = none := by rw [hphase]; rfl
  have hidle : s.phase ≠ .idle := by rw [hphase]; exact nofun
  unfold Driver.readData
  split
  · rename_i packet hstart
    obtain ⟨building, held, ho, hh⟩ := h
    have hchain := ho.chain
    rw [hstart] at hchain
    have hwalk := hchain.walk_eq ho.length_le.1
    have hrest := ho.rest
    rw [hfirst] at hrest
    cases hrest
    have hnodup := ho.nodup
    rw [List.append_nil] at hnodup
    refine ⟨[], building, ⟨.nil, fun h => absurd rfl h, hchain, hnodup, fun i => ?_, ho.counts, hwalk,
      ?_⟩, ⟨fun i hi => hh.buffers i (by simpa using hi), hh.data, rfl, fun _ _ _ => hh.linked, by simp,
      fun n frame hr => absurd (hh.returned n frame hr).1 hidle⟩⟩
    · have := ho.allocated i
      rwa [List.append_nil] at this
    · simp only [hwalk]
      exact (List.nodup_append.mp hnodup).2.1
  · exact inv_phase h hfirst rfl hidle (by simp)

theorem len_le_packetSize {f : Fragment} {packet : List Fragment} (h : f ∈ packet) :
    f.len ≤ packetSize packet := by
  induction packet with
  | nil => cases h
  | cons g packet ih =>
    rw [packetSize_cons]
    rcases List.mem_cons.mp h with rfl | h
    · exact Nat.le_add_right ..
    · exact Nat.le_trans (ih h) (Nat.le_add_left ..)

/-- A packet that is returned fits, so that its fragments are inside their buffers. -/
theorem inspect_ok {T : Option EtherType} {frame : Frame} {packet : List Fragment} {n : Nat}
    (hdata : ∀ f ∈ packet, f.buffer.length = ethDmaFrameBufferSize)
    (h : (inspect T frame packet).1 = some (.ok n)) :
    n = packetSize packet ∧ (inspect T frame packet).2.take n = contents packet := by
  unfold inspect at h ⊢
  by_cases hsize : packetSize packet > maxFrameSize ∨ frame.length < packetSize packet
  · simp [hsize] at h
  · have hlen : ∀ f ∈ packet, f.len ≤ f.buffer.length := by
      intro f hf
      have hle := len_le_packetSize hf
      rw [hdata f hf]
      simp only [maxFrameSize, ethDmaFrameBufferSize] at *
      omega
    have hcopy := copyFragments_eq frame 0 packet hlen (by omega)
    simp only [hsize, if_false] at h ⊢
    split at h
    · rename_i hpass
      cases h
      rw [if_pos hpass, hcopy]
      refine ⟨rfl, ?_⟩
      rw [List.take_zero, List.nil_append]
      exact List.take_left' (length_contents hlen)
    · cases h

theorem inv_inspect (h : Inv s) {T : Option EtherType} {frame frame' : Frame} {packet : Nat}
    {result : Option (Except Errc Nat)} (hphase : s.phase = .holding frame packet)
    (hinspect : inspect T frame (s.fragments packet) = (result, frame')) :
    Inv { s with phase := .releasing frame' (some packet) result } := by
  obtain ⟨building, held, ho, hh⟩ := h
  have hrest : Chain s.next (some packet) held := by
    have hrest := ho.rest
    rwa [hphase] at hrest
  have hfragments : s.fragments packet = s.packet := by
    rw [Driver.fragments, Chain.walk_eq hrest ho.length_le.2]
    exact hh.packet frame packet hphase
  have hdata : ∀ f ∈ s.packet, f.buffer.length = ethDmaFrameBufferSize := by
    rw [← hh.packet frame packet hphase]
    intro f hf
    obtain ⟨i, hi, rfl⟩ := List.mem_map.mp hf
    simp only [Driver.fragment, hh.buffers i (List.mem_append_right building hi), Option.map_some,
      Option.getD_some]
    exact hh.data i
  refine ⟨building, held, ⟨ho.chain, ho.rxEnd, hrest, ho.nodup, ho.allocated, ho.counts, ho.obtained,
    ho.once⟩, ⟨hh.buffers, hh.data, hh.linked, by simp, fun _ _ n hp => ?_, fun n frame hr => ?_⟩⟩
  · cases hp
    rw [hfragments] at hinspect
    have hok := inspect_ok (n := n) hdata (by rw [hinspect])
    rwa [hinspect] at hok
  · have hidle := (hh.returned n frame hr).1
    rw [hphase] at hidle
    cases hidle

theorem release_slots {frame : Frame} {i : Nat} {result : Option (Except Errc Nat)}
    (hi : i < rxSlotCount) : s.release frame i result = { s with
      slots := Function.update s.slots i { s.slots i with link := {}, allocated := false }
      phase := .releasing frame (s.next i) result
      released := s.released ++ [i]
      takenBack := Function.update s.takenBack i (s.takenBack i + 1) } := by
  have hfind : ((List.range rxSlotCount).find? fun candidate => candidate = i) = some i :=
    find_slot hi (by simp)
  unfold Driver.release releaseFirst
  rw [hfind]
  rfl

theorem inv_release (h : Inv s) {frame : Frame} {i : Nat} {result : Option (Except Errc Nat)}
    (hphase : s.phase = .releasing frame (some i) result) : Inv (s.release frame i result) := by
  obtain ⟨building, held, ho, hh⟩ := h
  have hrest : Chain s.next (some i) held := by
    have hrest := ho.rest
    rwa [hphase] at hrest
  obtain ⟨held, rfl, htail⟩ : ∃ tail, held = i :: tail ∧ Chain s.next (s.next i) tail := by
    cases hrest
    exact ⟨_, rfl, ‹_›⟩
  have hmem : i ∈ s.lent ++ (building ++ i :: held) := by simp
  have hi := ((ho.allocated i).mp hmem).1
  have hallocated := ((ho.allocated i).mp hmem).2
  have hperm : (s.lent ++ (building ++ i :: held)).Perm (i :: (s.lent ++ (building ++ held))) :=
    ((List.perm_middle (a := i)).append_left s.lent).trans List.perm_middle
  obtain ⟨hnot, hnodup⟩ := List.nodup_cons.mp (hperm.nodup_iff.mp ho.nodup)
  rw [release_slots hi]
  have hkeep : ∀ j ∈ building ++ held,
      Function.update s.slots i { s.slots i with link := {}, allocated := false } j = s.slots j := by
    intro j hj
    have hne : j ≠ i := fun heq => hnot (List.mem_append_right _ (heq ▸ hj))
    exact Function.update_of_ne hne ..
  have kept {p l} (hchain : Chain s.next p l) (hbuffers) (hl : ∀ j ∈ l, j ∈ building ++ held) :=
    @chain_kept s { s with
      slots := Function.update s.slots i { s.slots i with link := {}, allocated := false }
      phase := .releasing frame (s.next i) result
      released := s.released ++ [i]
      takenBack := Function.update s.takenBack i (s.takenBack i + 1) } p l hchain hbuffers
      fun j hj => hkeep j (hl j hj)
  obtain ⟨hchain, hbuffersb, hlinked⟩ := kept ho.chain hh.buffers_building (by simp +contextual)
  obtain ⟨hrest, hbuffersh, -⟩ := kept htail
    (fun j hj => hh.buffers_held j (List.mem_cons_of_mem i hj)) (by simp +contextual)
  refine ⟨building, held, ⟨hchain, ho.rxEnd, hrest, hnodup, fun j => ?_, fun j => ?_, ?_, ho.once⟩,
    ⟨List.forall_mem_append.mpr ⟨hbuffersb, hbuffersh⟩, fun j => ?_, hlinked.trans hh.linked, by simp,
    fun _ _ n hp => ?_, fun n frame hr => ?_⟩⟩
  · have hj := ho.allocated j
    rw [hperm.mem_iff, List.mem_cons] at hj
    by_cases hji : j = i
    · simpa [hji] using hnot
    · simpa [hji] using hj
  · have hcount := ho.counts j
    by_cases hji : j = i
    · subst hji
      simp only [hallocated, if_true] at hcount
      simp [hcount]
    · simpa [hji] using hcount
  · simp [ho.obtained]
  · by_cases hji : j = i
    · simpa [hji] using hh.data i
    · simpa [hji] using hh.data j
  · cases hp
    exact hh.copied _ _ n hphase
  · have hidle := (hh.returned n frame hr).1
    rw [hphase] at hidle
    cases hidle

theorem inv_return (h : Inv s) {frame : Frame} {result : Except Errc Nat}
    (hphase : s.phase = .releasing frame none (some result)) :
    Inv { s with phase := .idle, returned := some (result, frame) } := by
  obtain ⟨building, held, ho, hh⟩ := h
  have hrest := ho.rest
  rw [hphase] at hrest
  refine ⟨building, held, ⟨ho.chain, ho.rxEnd, hrest, ho.nodup, ho.allocated, ho.counts, ho.obtained,
    ho.once⟩, ⟨hh.buffers, hh.data, hh.linked, by simp, by simp, fun n frame' hr => ?_⟩⟩
  cases hr
  exact ⟨rfl, hh.copied _ _ n hphase⟩

theorem inv_step (h : Inv s) {T : Option EtherType} {a : Action} (hs : step T s a = some s') :
    Inv s' := by
  cases a with
  | allocate =>
    cases hs
    exact inv_allocate h
  | fill b bytes =>
    simp only [step, Option.ite_none_right_eq_some, Option.some.injEq] at hs
    obtain ⟨⟨hb, hfit⟩, rfl⟩ := hs
    exact inv_fill h hb hfit
  | link b length =>
    simp only [step, Option.ite_none_right_eq_some, Option.some.injEq] at hs
    obtain ⟨hb, rfl⟩ := hs
    exact inv_link h hb
  | call running frame timeout =>
    simp only [step] at hs
    split at hs
    · cases hs
      exact inv_call h ‹_› running frame timeout
    · cases hs
  | readData complete =>
    simp only [step] at hs
    split at hs
    · cases hs
      exact inv_readData h ‹_› complete
    · cases hs
  | inspect =>
    simp only [step] at hs
    split at hs
    · cases hs
      exact inv_inspect h ‹_› rfl
    · cases hs
  | release =>
    simp only [step] at hs
    split at hs
    · cases hs
      exact inv_release h ‹_›
    · cases hs
      exact inv_return h ‹_›
    · cases hs
      rename_i hphase
      exact inv_phase h (by rw [hphase]; rfl) rfl (by rw [hphase]; exact nofun) (by simp)
    · cases hs
  | check expired =>
    simp only [step] at hs
    split at hs
    · rename_i hphase
      have hfirst : first s.phase = none := by rw [hphase]; rfl
      split at hs
      · cases hs
        exact inv_error h hfirst _ _
      · cases hs
        exact inv_phase h hfirst rfl (by rw [hphase]; exact nofun) (by simp)
    · cases hs

end

/-- A slot that is not free is lent, or in the HAL's chain, or in that of `receive`, and once only;
no slot is handed out twice without a release. A packet's slots are released once each, all of them
before `receive` goes on or returns. A returned frame is what the packet's fragments hold. -/
structure Conserved (s : Driver) : Prop where
  owner : ∃ building held, Chain s.next s.rxStart building ∧ Chain s.next (first s.phase) held ∧
    (s.lent ++ (building ++ held)).Nodup ∧
    (∀ i, i ∈ s.lent ++ (building ++ held) ↔ i < rxSlotCount ∧ (s.slots i).allocated = true) ∧
    s.obtained = s.released ++ held
  handedOut : ∀ i, s.takenBack i ≤ s.handedOut i ∧ s.handedOut i ≤ s.takenBack i + 1
  obtained : s.obtained.Nodup
  released : first s.phase = none → s.released = s.obtained
  returned : ∀ n frame, s.returned = some (.ok n, frame) →
    n = packetSize s.packet ∧ frame.take n = contents s.packet

theorem slots_conserved (T : Option EtherType) {s : Driver}
    (h : Runs.Reached (step T) (fun _ _ => True) initial s) : Conserved s := by
  have hinv : Inv s := h.invariant inv_initial fun s s' a hs _ hstep => inv_step hs hstep
  obtain ⟨building, held, ho, hh⟩ := hinv
  refine ⟨⟨building, held, ho.chain, ho.rest, ho.nodup, ho.allocated, ho.obtained⟩, fun i => ?_,
    ho.once, fun hfirst => ?_, fun n frame hr => (hh.returned n frame hr).2⟩
  · have hcount := ho.counts i
    split at hcount <;> omega
  · have hrest := ho.rest
    rw [hfirst] at hrest
    cases hrest
    rw [ho.obtained, List.append_nil]

/-- Two fragments are lent, filled and linked, and `receive` returns them as one frame. -/
def twoFragments : List Action :=
  [.allocate, .allocate, .fill 0 [1, 2, 3], .fill 1 [4, 5], .link 1 2, .link 0 3,
    .call true (List.replicate 8 0) 5, .readData true, .inspect, .release, .release, .release]

theorem slots_conserved_twoFragments : ∃ s, Runs.perform (step none) initial twoFragments = some s ∧
    s.returned = some (.ok 5, [4, 5, 1, 2, 3, 0, 0, 0]) ∧ s.released = [1, 0] ∧ Conserved s := by
  obtain ⟨s, hs⟩ := Option.isSome_iff_exists.mp
    (show (Runs.perform (step none) initial twoFragments).isSome by decide +kernel)
  have hreturned : (Runs.perform (step none) initial twoFragments).map (fun s => s.returned) =
      some (some (.ok 5, [4, 5, 1, 2, 3, 0, 0, 0])) := by rfl
  have hreleased : (Runs.perform (step none) initial twoFragments).map (fun s => s.released) =
      some [1, 0] := by decide +kernel
  rw [hs, Option.map_some, Option.some.injEq] at hreturned hreleased
  exact ⟨s, hs, hreturned, hreleased, slots_conserved none
    (Runs.reached_of_perform hs (Runs.performs_always (fun _ _ => trivial) initial))⟩

end SimPLCity.SlotConservation
