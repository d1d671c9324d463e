import SimPLCity.DirectMedia
import Mathlib.Algebra.Group.Nat.Defs

/-! Accesses to the simulated card. The sectors of a request are added up in 32 bits before they are
checked, so that a request far beyond the end of the card may be taken for one at its start. -/

namespace SimPLCity.CardAccess
open DirectMedia

/-- The sector from which `sd_read` or `sd_write` is asked to start. -/
def startSector (media : Media) : UInt32 := media.driverLogicalSector + media.hiddenSectors

/-- The end of the request, computed without wrapping. -/
def exactEnd (media : Media) : Nat :=
  media.driverLogicalSector.toNat + media.hiddenSectors.toNat + media.driverSectors.toNat

/-- The driver does the request, with an access to the file that ends in this way. -/
def perform (partitionStart : List UInt8 → Option UInt32) (media : Media) (card : ImageCard)
    (status : FileStatus) : Reply ImageCard :=
  directMediaDriver simulation partitionStart media { card with status, touched := [] }

/-- Every sector of the request is on the card. -/
def OnCard (media : Media) (card : ImageCard) : Prop :=
  ∀ x, media.driverLogicalSector.toNat + media.hiddenSectors.toNat ≤ x → x < exactEnd media →
    x < card.sectors.toNat

/-- Every byte that was read or written is in the image of so many sectors. -/
def InImage (sectors : UInt32) (touched : List Touched) : Prop :=
  ∀ t ∈ touched, ∀ a, t.offset ≤ a → a < t.offset + t.count → a < sectors.toNat * sectorSize

structure StaysOnCard (partitionStart : List UInt8 → Option UInt32) (media : Media)
    (card : ImageCard) : Prop where
  accepted : ∀ status, (perform partitionStart media card status).success = true →
    OnCard media card
  rejected : ∀ status, (perform partitionStart media card status).success = false →
    InImage card.sectors (perform partitionStart media card status).card.touched

/-- The file is too short for a read to get at what is behind the image or far from the request. -/
def TooShort (media : Media) (card : ImageCard) (image : Image) : Prop :=
  if (startSector media).toNat + media.driverSectors.toNat < 2 ^ 32 then
    image.length < ((startSector media).toNat + media.driverSectors.toNat) * sectorSize
  else image.length ≤ max card.sectors.toNat (startSector media).toNat * sectorSize

/-- The request is empty, or it is on the card, or the check rejects it, or it cannot reach
anything. -/
def Harmless (media : Media) (card : ImageCard) : Prop :=
  media.driverSectors = 0 ∨ exactEnd media ≤ card.sectors.toNat ∨
    ¬ startSector media + media.driverSectors ≤ card.sectors ∨
    ∀ image ∈ card.file, media.driverRequest = .read ∧ TooShort media card image

section
variable {partitionStart : List UInt8 → Option UInt32} {media : Media} {card : ImageCard}
  {image : Image} {status : FileStatus}

theorem perform_rejected (hrequest : media.driverRequest = .read ∨ media.driverRequest = .write)
    (hcheck : ¬ startSector media + media.driverSectors ≤ card.sectors) (status : FileStatus) :
    (perform partitionStart media card status).success = false ∧
      (perform partitionStart media card status).card.touched = [] := by
  rcases hrequest with hrequest | hrequest <;>
    simp [perform, directMediaDriver, hrequest, readSectors, writeSectors, simulation,
      ImageCard.sdRead, ImageCard.sdWrite, ← startSector.eq_1, hcheck]

theorem perform_noFile (hrequest : media.driverRequest = .read ∨ media.driverRequest = .write)
    (hcheck : startSector media + media.driverSectors ≤ card.sectors) (hfile : card.file = none)
    (status : FileStatus) :
    (perform partitionStart media card status).success = false ∧
      (perform partitionStart media card status).card.touched =
        [⟨(startSector media).toNat * sectorSize, 0⟩] := by
  rcases hrequest with hrequest | hrequest <;>
    simp [perform, directMediaDriver, hrequest, readSectors, writeSectors, simulation,
      ImageCard.sdRead, ImageCard.sdWrite, ← startSector.eq_1, hcheck, hfile, fileRead, fileWrite]

/-- How many bytes a read gets. -/
def gotten (media : Media) (image : Image) (status : FileStatus) : Nat :=
  if status.seeks then
    min (min status.transferred (media.driverSectors.toNat * sectorSize))
      (image.length - (startSector media).toNat * sectorSize)
  else 0

theorem perform_read (hrequest : media.driverRequest = .read)
    (hcheck : startSector media + media.driverSectors ≤ card.sectors)
    (hfile : card.file = some image) (status : FileStatus) :
    (perform partitionStart media card status).success =
        (status.seeks && decide (gotten media image status =
          media.driverSectors.toNat * sectorSize)) ∧
      (perform partitionStart media card status).card.touched =
        [⟨(startSector media).toNat * sectorSize, gotten media image status⟩] := by
  cases hseeks : status.seeks <;>
    simp [perform, directMediaDriver, hrequest, readSectors, simulation, ImageCard.sdRead,
      ← startSector.eq_1, hcheck, hfile, fileRead, gotten, hseeks]

/-- How many bytes a write puts. -/
def put (media : Media) (status : FileStatus) : Nat :=
  if status.seeks then min status.transferred (media.driverSectors.toNat * sectorSize) else 0

theorem perform_write (hrequest : media.driverRequest = .write)
    (hcheck : startSector media + media.driverSectors ≤ card.sectors)
    (hfile : card.file = some image) (status : FileStatus) :
    (perform partitionStart media card status).success =
        (status.seeks && decide (put media status = media.driverSectors.toNat * sectorSize) &&
          status.flushes) ∧
      (perform partitionStart media card status).card.touched =
        [⟨(startSector media).toNat * sectorSize, put media status⟩] := by
  cases hseeks : status.seeks <;>
    simp [perform, directMediaDriver, hrequest, writeSectors, simulation, ImageCard.sdWrite,
      ← startSector.eq_1, hcheck, hfile, fileWrite, put, hseeks]

theorem inImage_singleton {sectors : UInt32} {offset count : Nat} :
    InImage sectors [⟨offset, count⟩] ↔ count = 0 ∨ offset + count ≤ sectors.toNat * sectorSize := by
  constructor
  · intro h
    by_contra hnot
    have hlast := h ⟨offset, count⟩ List.mem_cons_self (offset + count - 1)
    simp only at hlast
    omega
  · rintro h t ht a hle hlt
    obtain rfl := List.mem_singleton.mp ht
    simp only at hle hlt
    omega

theorem startSector_toNat : (startSector media).toNat =
    (media.driverLogicalSector.toNat + media.hiddenSectors.toNat) % 2 ^ 32 := UInt32.toNat_add ..

theorem check_iff : startSector media + media.driverSectors ≤ card.sectors ↔
    ((startSector media).toNat + media.driverSectors.toNat) % 2 ^ 32 ≤ card.sectors.toNat := by
  rw [UInt32.le_iff_toNat_le, UInt32.toNat_add]

theorem start_of_onCard (h : exactEnd media ≤ card.sectors.toNat) :
    (startSector media).toNat + media.driverSectors.toNat = exactEnd media := by
  have hbound := card.sectors.toNat_lt
  rw [startSector_toNat]
  unfold exactEnd at h ⊢
  omega

theorem onCard_of_end (h : exactEnd media ≤ card.sectors.toNat) : OnCard media card :=
  fun _ _ hx => Nat.lt_of_lt_of_le hx h

theorem not_onCard (hcount : media.driverSectors ≠ 0)
    (hend : ¬ exactEnd media ≤ card.sectors.toNat) : ¬ OnCard media card := by
  have hpos : media.driverSectors.toNat ≠ 0 := fun h0 => hcount (UInt32.toNat_inj.mp h0)
  intro h
  have hlast := h (exactEnd media - 1) (by unfold exactEnd; omega) (by unfold exactEnd; omega)
  omega

theorem transferred_le (media : Media) (image : Image) (status : FileStatus) :
    put media status ≤ media.driverSectors.toNat * sectorSize ∧
      gotten media image status ≤ media.driverSectors.toNat * sectorSize ∧
      gotten media image status ≤ image.length - (startSector media).toNat * sectorSize := by
  unfold put gotten
  split <;> omega

theorem touched_request (partitionStart : List UInt8 → Option UInt32)
    (hrequest : media.driverRequest = .read ∨ media.driverRequest = .write)
    (hcheck : startSector media + media.driverSectors ≤ card.sectors) (status : FileStatus) :
    ∃ count ≤ media.driverSectors.toNat * sectorSize,
      (perform partitionStart media card status).card.touched =
        [⟨(startSector media).toNat * sectorSize, count⟩] := by
  cases hfile : card.file with
  | none => exact ⟨0, Nat.zero_le _, (perform_noFile hrequest hcheck hfile status).2⟩
  | some image =>
    rcases hrequest with hread | hwrite
    · exact ⟨_, (transferred_le media image status).2.1, (perform_read hread hcheck hfile status).2⟩
    · exact ⟨_, (transferred_le media image status).1,
        (perform_write hwrite hcheck hfile status).2⟩

theorem gotten_short (hcount : media.driverSectors ≠ 0)
    (hcheck : startSector media + media.driverSectors ≤ card.sectors)
    (hshort : TooShort media card image) (status : FileStatus) :
    gotten media image status ≠ media.driverSectors.toNat * sectorSize ∧
      InImage card.sectors [⟨(startSector media).toNat * sectorSize,
        gotten media image status⟩] := by
  have hpos : media.driverSectors.toNat ≠ 0 := fun h0 => hcount (UInt32.toNat_inj.mp h0)
  have hbound := card.sectors.toNat_lt
  obtain ⟨-, -, hgot⟩ := transferred_le media image status
  rw [check_iff] at hcheck
  rw [inImage_singleton]
  unfold TooShort at hshort
  unfold sectorSize at hgot hshort ⊢
  split at hshort
  · constructor <;> omega
  · constructor <;> omega

theorem staysOnCard_of_harmless
    (hrequest : media.driverRequest = .read ∨ media.driverRequest = .write)
    (h : Harmless media card) : StaysOnCard partitionStart media card := by
  by_cases hcheck : startSector media + media.driverSectors ≤ card.sectors
  · by_cases hcount : media.driverSectors = 0
    · have hzero : media.driverSectors.toNat = 0 := by rw [hcount]; rfl
      refine ⟨fun _ _ x hle hlt => ?_, fun status _ => ?_⟩
      · unfold exactEnd at hlt
        omega
      · obtain ⟨count, hle, htouched⟩ := touched_request partitionStart
          hrequest hcheck status
        rw [hzero, Nat.zero_mul] at hle
        rw [htouched, inImage_singleton]
        exact .inl (Nat.le_zero.mp hle)
    · rcases h with h | hend | h | hshort
      · exact absurd h hcount
      · refine ⟨fun _ _ => onCard_of_end hend, fun status _ => ?_⟩
        obtain ⟨count, hle, htouched⟩ := touched_request partitionStart
          hrequest hcheck status
        have hstart := start_of_onCard hend
        rw [htouched, inImage_singleton]
        unfold sectorSize at hle ⊢
        omega
      · exact absurd hcheck h
      · cases hfile : card.file with
        | none =>
          refine ⟨fun status hsuccess => ?_, fun status _ => ?_⟩
          · rw [(perform_noFile hrequest hcheck hfile status).1] at hsuccess
            cases hsuccess
          · rw [(perform_noFile hrequest hcheck hfile status).2, inImage_singleton]
            exact .inl rfl
        | some image =>
          obtain ⟨hread, hshort⟩ := hshort image hfile
          refine ⟨fun status hsuccess => ?_, fun status _ => ?_⟩
          · have hnot := (gotten_short hcount hcheck hshort status).1
            simp [(perform_read hread hcheck hfile status).1, hnot] at hsuccess
          · rw [(perform_read hread hcheck hfile status).2]
            exact (gotten_short hcount hcheck hshort status).2
  · refine ⟨fun status hsuccess => ?_, fun status _ => ?_⟩
    · rw [(perform_rejected hrequest hcheck status).1] at hsuccess
      cases hsuccess
    · rw [(perform_rejected hrequest hcheck status).2]
      exact fun t ht => by cases ht

/-- Every call of the C library succeeds. -/
def smooth (media : Media) : FileStatus where
  transferred := media.driverSectors.toNat * sectorSize

theorem write_succeeds (hwrite : media.driverRequest = .write)
    (hcheck : startSector media + media.driverSectors ≤ card.sectors)
    (hfile : card.file = some image) :
    (perform partitionStart media card (smooth media)).success = true := by
  rw [(perform_write hwrite hcheck hfile _).1]
  simp [smooth, put]

theorem not_staysOnCard (hrequest : media.driverRequest = .read ∨ media.driverRequest = .write)
    (h : ¬ Harmless media card) : ¬ StaysOnCard partitionStart media card := by
  unfold Harmless at h
  rw [not_or, not_or, not_or, not_not, not_forall] at h
  obtain ⟨hcount, hend, hcheck, image, himage⟩ := h
  obtain ⟨hfile, hlong⟩ := Classical.not_imp.mp himage
  rw [not_and] at hlong
  have hout := not_onCard hcount hend
  intro hstays
  rcases hrequest with hread | hwrite
  · have hlong := hlong hread
    have hgotten : gotten media image (smooth media) =
        min (media.driverSectors.toNat * sectorSize)
          (image.length - (startSector media).toNat * sectorSize) := by
      simp [gotten, smooth]
    obtain ⟨hsuccess, htouched⟩ := @perform_read partitionStart media card image hread hcheck
      hfile (smooth media)
    by_cases hall : gotten media image (smooth media) = media.driverSectors.toNat * sectorSize
    · exact hout (hstays.accepted (smooth media) (by rw [hsuccess, hall]; simp [smooth]))
    · -- the read comes to the end of a file that is longer than the image
      have hinside := hstays.rejected (smooth media) (by rw [hsuccess]; simp [hall])
      rw [htouched, inImage_singleton] at hinside
      unfold TooShort at hlong
      rw [hgotten] at hall hinside
      rw [check_iff] at hcheck
      unfold sectorSize at hall hinside hlong
      split at hlong <;> omega
  · exact hout (hstays.accepted (smooth media) (write_succeeds hwrite hcheck hfile))

end

theorem staysOnCard_iff (partitionStart : List UInt8 → Option UInt32) (media : Media)
    (card : ImageCard) (hrequest : media.driverRequest = .read ∨ media.driverRequest = .write) :
    StaysOnCard partitionStart media card ↔ Harmless media card :=
  ⟨fun h => by_contra fun hnot => not_staysOnCard hrequest hnot h,
    staysOnCard_of_harmless hrequest⟩

/-- A card of 64 MiB. -/
def emptyCard : ImageCard where
  file := some ⟨131072 * sectorSize, fun _ => 0⟩
  sectors := 131072
  status := { transferred := 0 }

/-- The last sector. -/
def lastSector : Media where
  driverRequest := .write
  driverLogicalSector := 131071
  driverSectors := 1

theorem staysOnCard_iff_lastSector : StaysOnCard (fun _ => some 0) lastSector emptyCard :=
  (staysOnCard_iff _ _ _ (.inr rfl)).mpr (.inr (.inl (by decide)))

/-- The sector that is the last one of all 32-bit numbers. -/
def farSector : Media where
  driverRequest := .write
  driverLogicalSector := 0xFFFFFFFF
  driverSectors := 1

/-- It is written, two tebibytes beyond the end of the card. -/
theorem far_write_succeeds :
    (perform (fun _ => some 0) farSector emptyCard (smooth farSector)).success = true ∧
      ¬ OnCard farSector emptyCard ∧ ¬ StaysOnCard (fun _ => some 0) farSector emptyCard := by
  have hsuccess := @write_succeeds (fun _ => some 0) farSector emptyCard _ rfl (by decide) rfl
  have hout : ¬ OnCard farSector emptyCard := not_onCard (by decide) (by decide)
  exact ⟨hsuccess, hout, fun h => hout (h.accepted _ hsuccess)⟩

end SimPLCity.CardAccess
