import SimPLCity.DirectMedia
import Mathlib.Algebra.Group.Nat.Defs

/-! The sectors that the requests of the driver reach. The boot read takes the start of the
partition from the partition table, and the other requests take it from the boot record. -/

namespace SimPLCity.PartitionAddressing
open DirectMedia

def sectorCount : Transfer → UInt32
  | .read _ sectors | .write _ sectors => sectors

/-- The transfer is about this sector. -/
def Reaches (t : Transfer) (sector : UInt32) : Prop :=
  ∃ i < (sectorCount t).toNat, sector = t.sector + UInt32.ofNat i

/-- A device whose sectors have contents: reads return them, and writes change them only where the
transfer reaches. -/
structure Addressed {σ : Type} (d : Device σ) (contents : σ → UInt32 → List UInt8) : Prop where
  readOne : ∀ card sector, (d.sdRead card sector 1).1.1 = true →
    (d.sdRead card sector 1).1.2 = contents card sector
  readKeeps : ∀ card sector sectors, contents (d.sdRead card sector sectors).2 = contents card
  writeKeeps : ∀ card sector source sectors other, ¬ Reaches (.write sector sectors) other →
    contents (d.sdWrite card sector source sectors).2 other = contents card other

theorem readBlocks_blocks (sector : UInt32) (remaining : Nat) : ∀ (index : Nat)
    (card : HardwareCard),
    (HardwareCard.readBlocks sector remaining index card).2.blocks = card.blocks := by
  induction remaining with
  | zero => intro index card; rfl
  | succ remaining ih =>
    intro index card
    unfold HardwareCard.readBlocks
    cases card.status card.commands with
    | done => exact ih (index + 1) { card with commands := card.commands + 1 }
    | commandFailed => rfl
    | notReady => rfl

theorem writeBlocks_blocks (sector other : UInt32) (remaining : Nat) : ∀ (index : Nat)
    (source : List UInt8) (card : HardwareCard),
    (∀ i, index ≤ i → i < index + remaining → other ≠ sector + UInt32.ofNat i) →
    (HardwareCard.writeBlocks sector remaining index source card).2.blocks other =
      card.blocks other := by
  induction remaining with
  | zero => intro index source card _; rfl
  | succ remaining ih =>
    intro index source card hother
    have hne : other ≠ sector + UInt32.ofNat index := hother index (Nat.le_refl _) (by omega)
    unfold HardwareCard.writeBlocks
    cases card.status card.commands with
    | done =>
      have hrest := ih (index + 1) (source.drop sectorSize) { card with
        commands := card.commands + 1
        blocks := Function.update card.blocks (sector + UInt32.ofNat index)
          (source.take sectorSize) } (fun i hlow hhigh => hother i (by omega) (by omega))
      simpa [hne] using hrest
    | commandFailed => rfl
    | notReady => simp [hne]

theorem hardware_addressed : Addressed hardware HardwareCard.blocks where
  readOne := by
    intro card sector hsuccess
    cases hstatus : card.status card.commands <;>
      simp_all [hardware, HardwareCard.readBlocks, show (1 : UInt32).toNat = 1 from rfl]
  readKeeps := fun card sector sectors => readBlocks_blocks sector sectors.toNat 0 card
  writeKeeps := by
    intro card sector source sectors other hother
    refine writeBlocks_blocks sector other sectors.toNat 0 source card fun i _ hi heq => ?_
    exact hother ⟨i, by simpa [sectorCount] using hi, heq⟩

/-- A byte behind the end of the file counts as zero. -/
def byteOrZero (image : Image) (a : Nat) : UInt8 :=
  if a < image.length then image.byte a else 0

/-- The bytes of a sector of the image. -/
def imageSector (card : ImageCard) (sector : UInt32) : List UInt8 :=
  match card.file with
  | none => []
  | some image => (List.range sectorSize).map fun i =>
      byteOrZero image (sector.toNat * sectorSize + i)

theorem overwrite_byteOrZero {image : Image} {offset a : Nat} {bytes : List UInt8}
    (ha : ¬ (offset ≤ a ∧ a < offset + bytes.length)) :
    byteOrZero (image.overwrite offset bytes) a = byteOrZero image a := by
  unfold byteOrZero Image.overwrite
  simp only [ha, if_false]
  by_cases hlength : a < image.length
  · have hlonger : a < if bytes = [] then image.length
        else max image.length (offset + bytes.length) := by
      split <;> omega
    simp only [hlength, hlonger, if_true]
  · simp only [hlength, if_false, ite_self]

theorem outside_of_not_reaches {sector sectors other : UInt32} {i count : Nat}
    (hi : i < sectorSize) (hcount : count ≤ sectors.toNat * sectorSize)
    (hother : ¬ Reaches (.write sector sectors) other) :
    ¬ (sector.toNat * sectorSize ≤ other.toNat * sectorSize + i ∧
      other.toNat * sectorSize + i < sector.toNat * sectorSize + count) := by
  rintro ⟨hlow, hhigh⟩
  unfold sectorSize at *
  have hbound := other.toNat_lt
  refine hother ⟨other.toNat - sector.toNat, by simp only [sectorCount]; omega, ?_⟩
  apply UInt32.toNat_inj.mp
  rw [UInt32.toNat_add, UInt32.toNat_ofNat']
  simp only [Transfer.sector]
  omega

theorem simulation_addressed : Addressed simulation imageSector where
  readOne := by
    intro card sector hsuccess
    change (card.sdRead sector 1).1.1 = true at hsuccess
    change (card.sdRead sector 1).1.2 = imageSector card sector
    unfold ImageCard.sdRead at hsuccess ⊢
    split at hsuccess
    case isFalse => cases hsuccess
    case isTrue hcheck =>
      rw [if_pos hcheck]
      cases hfile : card.file with
      | none => simp [fileRead, hfile] at hsuccess
      | some image =>
        simp only [fileRead, hfile] at hsuccess ⊢
        cases hseeks : card.status.seeks with
        | false => simp [hseeks] at hsuccess
        | true =>
          simp only [hseeks, if_true, decide_eq_true_eq,
            show (1 : UInt32).toNat = 1 from rfl, Nat.one_mul] at hsuccess ⊢
          rw [hsuccess, imageSector, hfile]
          -- all of the bytes are before the end of the file
          refine List.map_congr_left fun i hi => ?_
          have hi := List.mem_range.mp hi
          have hlength : sector.toNat * sectorSize + i < image.length := by omega
          simp only [byteOrZero, hlength, if_true]
  readKeeps := by
    intro card sector sectors
    change imageSector (card.sdRead sector sectors).2 = imageSector card
    unfold ImageCard.sdRead
    split <;> rfl
  writeKeeps := by
    intro card sector source sectors other hother
    change imageSector (card.sdWrite sector source sectors).2 other = imageSector card other
    unfold ImageCard.sdWrite
    split
    case isFalse => rfl
    case isTrue =>
      cases hfile : card.file with
      | none => simp only [imageSector, fileWrite, hfile]
      | some image =>
        simp only [imageSector, fileWrite, hfile]
        cases card.status.seeks with
        | false => rfl
        | true =>
          refine List.map_congr_left fun i hi => ?_
          refine overwrite_byteOrZero (outside_of_not_reaches (List.mem_range.mp hi) ?_ hother)
          rw [List.length_take]
          omega

section
variable {σ : Type} (d : Device σ) (partitionStart : List UInt8 → Option UInt32)

/-- The start of the partition that the boot read finds, zero without a partition table. -/
def tableStart (media : Media) (card : σ) : UInt32 :=
  (partitionStart (readSectors d media card 0 1).buffer).getD 0

/-- The sector from which the last transfer of a request starts. -/
def lastSector (reply : Reply σ) : Option UInt32 := reply.transfers.getLast?.map Transfer.sector

/-- A request of the media with these hidden sectors, on the card in any later state, and one of its
transfers. -/
structure Transferred (hidden : UInt32) (later : Media) (card : σ) (t : Transfer) : Prop where
  hidden : later.hiddenSectors = hidden
  made : t ∈ (directMediaDriver d partitionStart later card).transfers

/-- The requests agree with the boot read. `hiddenField` is the field that FileX takes over from the
boot record. -/
structure SamePartition (hiddenField : List UInt8 → UInt32) (media : Media) (card : σ) :
    Prop where
  bootWrite : ∀ later card' t, later.driverRequest = .bootWrite →
    Transferred d partitionStart (hiddenField (bootRead d partitionStart media card).buffer)
      later card' t →
    lastSector (bootRead d partitionStart media card) = some t.sector
  first : ∀ later card' t, later.driverRequest = .read ∨ later.driverRequest = .write →
    later.driverLogicalSector = 0 →
    Transferred d partitionStart (hiddenField (bootRead d partitionStart media card).buffer)
      later card' t →
    lastSector (bootRead d partitionStart media card) = some t.sector
  inside : ∀ later card' t, later.driverRequest = .read ∨ later.driverRequest = .write →
    Transferred d partitionStart (hiddenField (bootRead d partitionStart media card).buffer)
      later card' t →
    ∀ size, (tableStart d partitionStart media card).toNat + size ≤ 2 ^ 32 →
      later.driverLogicalSector.toNat + later.driverSectors.toNat ≤ size →
      ∀ sector, Reaches t sector →
        (tableStart d partitionStart media card).toNat ≤ sector.toNat ∧
          sector.toNat < (tableStart d partitionStart media card).toNat + size

variable {d partitionStart} {media : Media} {card : σ}

theorem bootRead_cases (h : (bootRead d partitionStart media card).success = true) :
    (readSectors d media card 0 1).success = true ∧
      ((tableStart d partitionStart media card = 0 ∧
          bootRead d partitionStart media card = readSectors d media card 0 1) ∨
        ∃ media' : Media,
          let second := readSectors d media' (readSectors d media card 0 1).card
            (tableStart d partitionStart media card) 1
          second.success = true ∧ bootRead d partitionStart media card =
            { second with
              transfers := (readSectors d media card 0 1).transfers ++ second.transfers }) := by
  unfold bootRead at h ⊢
  unfold tableStart
  generalize readSectors d media card 0 1 = first at h ⊢
  cases hfirst : first.success with
  | false => simp [hfirst] at h
  | true =>
    cases hstart : partitionStart first.buffer with
    | none => simp [hfirst, hstart] at h
    | some start =>
      refine ⟨rfl, ?_⟩
      by_cases hzero : start = 0
      · exact .inl ⟨hzero, by simp [hfirst, hstart, hzero]⟩
      · refine .inr ⟨{ media with driverBuffer := first.buffer }, ?_, ?_⟩
        · simpa [hfirst, hstart, hzero] using h
        · simp [hfirst, hstart, hzero]

theorem lastSector_bootRead (h : (bootRead d partitionStart media card).success = true) :
    lastSector (bootRead d partitionStart media card) =
      some (tableStart d partitionStart media card) := by
  obtain ⟨-, ⟨hzero, heq⟩ | ⟨media', -, heq⟩⟩ := bootRead_cases h
  · rw [heq, hzero]
    rfl
  · rw [heq]
    rfl

theorem bootRead_contents {contents : σ → UInt32 → List UInt8} (haddressed : Addressed d contents)
    (h : (bootRead d partitionStart media card).success = true) :
    ∃ rest, (bootRead d partitionStart media card).buffer =
      contents card (tableStart d partitionStart media card) ++ rest := by
  obtain ⟨hfirst, ⟨hzero, heq⟩ | ⟨media', hsecond, heq⟩⟩ := bootRead_cases h
  · rw [heq, hzero, ← haddressed.readOne card 0 hfirst]
    exact ⟨_, rfl⟩
  · have hkeeps : contents (readSectors d media card 0 1).card = contents card :=
      haddressed.readKeeps card 0 1
    rw [heq, ← hkeeps, ← haddressed.readOne _ _ hsecond]
    exact ⟨_, rfl⟩

theorem directMediaDriver_contents {contents : σ → UInt32 → List UInt8}
    (haddressed : Addressed d contents) {sector : UInt32}
    (h : ∀ t ∈ (directMediaDriver d partitionStart media card).transfers, ¬ Reaches t sector) :
    contents (directMediaDriver d partitionStart media card).card sector = contents card sector := by
  cases hrequest : media.driverRequest with
  | init | uninit | flush | abort | other => simp only [directMediaDriver, hrequest]
  | read =>
    simp only [directMediaDriver, hrequest]
    exact congrFun (haddressed.readKeeps ..) sector
  | write =>
    simp only [directMediaDriver, hrequest] at h ⊢
    exact haddressed.writeKeeps _ _ _ _ _ (h _ List.mem_cons_self)
  | bootRead =>
    simp only [directMediaDriver, hrequest]
    unfold bootRead
    dsimp only
    have hfirst : contents (readSectors d media card 0 1).card = contents card :=
      haddressed.readKeeps card 0 1
    split
    case isTrue => exact congrFun hfirst sector
    case isFalse =>
      split
      case h_1 => exact congrFun hfirst sector
      case h_2 =>
        split
        case isTrue => exact congrFun hfirst sector
        case isFalse =>
          exact (congrFun (haddressed.readKeeps ..) sector).trans (congrFun hfirst sector)
  | bootWrite =>
    simp only [directMediaDriver, hrequest] at h ⊢
    exact haddressed.writeKeeps _ _ _ _ _ (h _ List.mem_cons_self)

theorem transferred_bootWrite {hidden : UInt32} {t : Transfer}
    (hrequest : media.driverRequest = .bootWrite)
    (h : Transferred d partitionStart hidden media card t) : t = .write hidden 1 := by
  have hmade := h.made
  simp only [directMediaDriver, hrequest, writeSectors, h.hidden] at hmade
  exact List.mem_singleton.mp hmade

theorem transferred_access {hidden : UInt32} {t : Transfer}
    (hrequest : media.driverRequest = .read ∨ media.driverRequest = .write)
    (h : Transferred d partitionStart hidden media card t) :
    t.sector = media.driverLogicalSector + hidden ∧ sectorCount t = media.driverSectors := by
  have hmade := h.made
  rcases hrequest with hrequest | hrequest
  · simp only [directMediaDriver, hrequest, readSectors, h.hidden] at hmade
    rw [List.mem_singleton.mp hmade]
    exact ⟨rfl, rfl⟩
  · simp only [directMediaDriver, hrequest, writeSectors, h.hidden] at hmade
    rw [List.mem_singleton.mp hmade]
    exact ⟨rfl, rfl⟩

theorem reached_inside {hidden sector : UInt32} {t : Transfer} {size : Nat}
    (hsector : t.sector = media.driverLogicalSector + hidden)
    (hcount : sectorCount t = media.driverSectors) (hsize : hidden.toNat + size ≤ 2 ^ 32)
    (hinside : media.driverLogicalSector.toNat + media.driverSectors.toNat ≤ size)
    (hreaches : Reaches t sector) :
    hidden.toNat ≤ sector.toNat ∧ sector.toNat < hidden.toNat + size := by
  obtain ⟨i, hi, rfl⟩ := hreaches
  rw [hcount] at hi
  rw [hsector, UInt32.toNat_add, UInt32.toNat_add, UInt32.toNat_ofNat']
  omega

end

theorem samePartition_iff {σ : Type} (d : Device σ) (partitionStart : List UInt8 → Option UInt32)
    (hiddenField : List UInt8 → UInt32) (media : Media) (card : σ)
    (h : (bootRead d partitionStart media card).success = true) :
    SamePartition d partitionStart hiddenField media card ↔
      hiddenField (bootRead d partitionStart media card).buffer =
        tableStart d partitionStart media card := by
  constructor
  · intro hsame
    have hboot := hsame.bootWrite
      { driverRequest := .bootWrite
        hiddenSectors := hiddenField (bootRead d partitionStart media card).buffer }
      card _ rfl ⟨rfl, List.mem_singleton.mpr rfl⟩
    rw [lastSector_bootRead h] at hboot
    exact (Option.some.inj hboot).symm
  · intro hfield
    refine ⟨?_, ?_, ?_⟩
    · intro later card' t hrequest ht
      rw [hfield] at ht
      rw [lastSector_bootRead h, transferred_bootWrite hrequest ht]
      rfl
    · intro later card' t hrequest hlogical ht
      rw [hfield] at ht
      rw [lastSector_bootRead h, (transferred_access hrequest ht).1, hlogical, UInt32.zero_add]
    · intro later card' t hrequest ht size hsize hinside sector hreaches
      rw [hfield] at ht
      obtain ⟨hsector, hcount⟩ := transferred_access hrequest ht
      exact reached_inside hsector hcount hsize hinside hreaches

/-- Thirty-two bits in little endian. -/
def field (offset : Nat) (buffer : List UInt8) : UInt32 :=
  let byte := fun i => (buffer.getD (offset + i) 0).toUInt32
  byte 0 ||| byte 1 <<< 8 ||| byte 2 <<< 16 ||| byte 3 <<< 24

/-- The start in the first entry of the partition table, unless the sector is a boot record. -/
def firstEntry (buffer : List UInt8) : Option UInt32 :=
  if buffer.getD 510 0 = 0x55 ∧ buffer.getD 511 0 = 0xAA then
    if buffer.getD 0 0 = 0xEB ∧ buffer.getD 2 0 = 0x90 then some 0 else some (field 454 buffer)
  else none

/-- The partition starts at sector 8. -/
def table : List UInt8 :=
  List.replicate 450 0 ++ [0x0C, 0, 0, 0, 8, 0, 0, 0, 0xE8, 3, 0, 0] ++ List.replicate 48 0 ++
    [0x55, 0xAA]

/-- A boot record with this number in its hidden-sectors field. -/
def bootRecord (hidden : UInt8) : List UInt8 :=
  [0xEB, 0x3C, 0x90] ++ List.replicate 25 0 ++ [hidden, 0, 0, 0] ++ List.replicate 478 0 ++
    [0x55, 0xAA]

def partitionedCard (hidden : UInt8) : HardwareCard where
  blocks := fun sector =>
    if sector = 0 then table
    else if sector = 8 then bootRecord hidden
    else List.replicate sectorSize 0
  status := fun _ => .done

theorem samePartition_iff_partitionedCard :
    SamePartition hardware firstEntry (field 28) { driverRequest := .bootRead }
      (partitionedCard 8) :=
  (samePartition_iff hardware firstEntry (field 28) { driverRequest := .bootRead }
    (partitionedCard 8) (by decide +kernel)).mpr (by decide +kernel)

/-- A partition that was formatted as if it were the whole card. The boot read finds it, and a boot
write puts the boot record in the place of the partition table. -/
theorem bootWrite_overwrites_table :
    (bootRead hardware firstEntry { driverRequest := .bootRead } (partitionedCard 0)).success = true ∧
      (directMediaDriver hardware firstEntry
        { driverRequest := .bootWrite
          driverBuffer := bootRecord 0
          hiddenSectors := field 28 (bootRead hardware firstEntry { driverRequest := .bootRead }
            (partitionedCard 0)).buffer }
        (partitionedCard 0)).card.blocks 0 = bootRecord 0 ∧
      ¬ SamePartition hardware firstEntry (field 28) { driverRequest := .bootRead }
        (partitionedCard 0) := by
  refine ⟨by decide +kernel, by decide +kernel, fun h => ?_⟩
  have hboot := h.bootWrite
    { driverRequest := .bootWrite
      hiddenSectors := field 28 (bootRead hardware firstEntry { driverRequest := .bootRead }
        (partitionedCard 0)).buffer }
    (partitionedCard 0) _ rfl ⟨rfl, List.mem_singleton.mpr rfl⟩
  revert hboot
  decide +kernel

end SimPLCity.PartitionAddressing
