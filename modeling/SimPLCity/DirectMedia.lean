import Mathlib.Logic.Function.Basic
import Mathlib.Data.List.Basic

/-! The driver of the SD card, over the card of the hardware or the image file of the simulation. -/

namespace SimPLCity.DirectMedia

abbrev sectorSize : Nat := 512

/-- `sd_read`, with whether it succeeds and the bytes that it has stored, and `sd_write`. -/
structure Device (σ : Type) where
  sdRead : σ → (sector sectors : UInt32) → (Bool × List UInt8) × σ
  sdWrite : σ → (sector : UInt32) → (source : List UInt8) → (sectors : UInt32) → Bool × σ

inductive Request
  | init | uninit | flush | abort | read | write | bootRead | bootWrite
  | other (code : UInt32)
deriving DecidableEq, Repr

/-- The fields of `FX_MEDIA` that the driver reads. -/
structure Media where
  driverRequest : Request
  driverLogicalSector : UInt32 := 0
  driverSectors : UInt32 := 0
  hiddenSectors : UInt32 := 0
  driverBuffer : List UInt8 := []
deriving DecidableEq, Repr

/-- A call of `sd_read` or `sd_write`. -/
inductive Transfer
  | read (sector sectors : UInt32)
  | write (sector sectors : UInt32)
deriving DecidableEq, Repr

def Transfer.sector : Transfer → UInt32
  | .read sector _ | .write sector _ => sector

/-- `success` is `FX_SUCCESS`, otherwise the status is `FX_IO_ERROR`. -/
structure Reply (σ : Type) where
  success : Bool
  buffer : List UInt8
  card : σ
  transfers : List Transfer := []

/-- The bytes at the start of a buffer. -/
def store (bytes buffer : List UInt8) : List UInt8 := bytes ++ buffer.drop bytes.length

section
variable {σ : Type} (d : Device σ)

def readSectors (media : Media) (card : σ) (sector sectors : UInt32) : Reply σ :=
  let ((success, bytes), card) := d.sdRead card sector sectors
  ⟨success, store bytes media.driverBuffer, card, [.read sector sectors]⟩

def writeSectors (media : Media) (card : σ) (sector sectors : UInt32) : Reply σ :=
  let (success, card) := d.sdWrite card sector media.driverBuffer sectors
  ⟨success, media.driverBuffer, card, [.write sector sectors]⟩

/-- `partitionStart` is `_fx_partition_offset_calculate` for partition 0, without a result where it
fails. -/
def bootRead (partitionStart : List UInt8 → Option UInt32) (media : Media) (card : σ) : Reply σ :=
  let first := readSectors d media card 0 1
  if !first.success then first
  else
    match partitionStart first.buffer with
    | none => { first with success := false }
    | some start =>
      if start = 0 then first
      else
        let second := readSectors d { media with driverBuffer := first.buffer } first.card start 1
        { second with transfers := first.transfers ++ second.transfers }

def directMediaDriver (partitionStart : List UInt8 → Option UInt32) (media : Media) (card : σ) :
    Reply σ :=
  match media.driverRequest with
  | .init | .uninit | .flush | .abort => ⟨true, media.driverBuffer, card, []⟩
  | .read =>
    readSectors d media card (media.driverLogicalSector + media.hiddenSectors) media.driverSectors
  | .write =>
    writeSectors d media card (media.driverLogicalSector + media.hiddenSectors) media.driverSectors
  | .bootRead => bootRead d partitionStart media card
  | .bootWrite => writeSectors d media card media.hiddenSectors 1
  | .other _ => ⟨false, media.driverBuffer, card, []⟩

end

/-- How a command for one block ends. -/
inductive BlockStatus
  | done
  | commandFailed
  | notReady
deriving DecidableEq, Repr

/-- `status` is that of the `n`th command. -/
structure HardwareCard where
  blocks : UInt32 → List UInt8
  status : Nat → BlockStatus
  commands : Nat := 0

namespace HardwareCard

/-- `index` blocks have been read. -/
def readBlocks (sector : UInt32) : (remaining index : Nat) → HardwareCard →
    (Bool × List UInt8) × HardwareCard
  | 0, _, card => ((true, []), card)
  | remaining + 1, index, card =>
    let next := { card with commands := card.commands + 1 }
    match card.status card.commands with
    | .done =>
      let ((success, bytes), card') := readBlocks sector remaining (index + 1) next
      ((success, card.blocks (sector + UInt32.ofNat index) ++ bytes), card')
    | .commandFailed | .notReady => ((false, []), next)

/-- `index` blocks have been written; `source` is what is left. -/
def writeBlocks (sector : UInt32) : (remaining index : Nat) → (source : List UInt8) →
    HardwareCard → Bool × HardwareCard
  | 0, _, _, card => (true, card)
  | remaining + 1, index, source, card =>
    let next := { card with commands := card.commands + 1 }
    let written := { next with
      blocks := Function.update card.blocks (sector + UInt32.ofNat index) (source.take sectorSize) }
    match card.status card.commands with
    | .done => writeBlocks sector remaining (index + 1) (source.drop sectorSize) written
    | .commandFailed => (false, next)
    | .notReady => (false, written)

end HardwareCard

def hardware : Device HardwareCard where
  sdRead := fun card sector sectors => HardwareCard.readBlocks sector sectors.toNat 0 card
  sdWrite := fun card sector source sectors =>
    HardwareCard.writeBlocks sector sectors.toNat 0 source card

/-- The image file. -/
structure Image where
  length : Nat
  byte : Nat → UInt8

/-- How far the calls of the C library come; `transferred` is for `fread` and `fwrite`. -/
structure FileStatus where
  seeks : Bool := true
  transferred : Nat
  flushes : Bool := true
deriving DecidableEq, Repr

/-- The bytes from an offset on that a call has read or written. -/
structure Touched where
  offset : Nat
  count : Nat
deriving DecidableEq, Repr

/-- `sd_device`. `status` is that of the next access; `touched` is for the proofs only. -/
structure ImageCard where
  file : Option Image
  sectors : UInt32
  status : FileStatus
  touched : List Touched := []

/-- What `fwrite` leaves: a gap behind the old end of the file is filled with zeros. -/
def Image.overwrite (image : Image) (offset : Nat) (bytes : List UInt8) : Image where
  length := if bytes = [] then image.length else max image.length (offset + bytes.length)
  byte := fun a =>
    if offset ≤ a ∧ a < offset + bytes.length then bytes.getD (a - offset) 0
    else if a < image.length then image.byte a
    else 0

def fileRead (file : Option Image) (status : FileStatus) (offset count : Nat) : Bool × List UInt8 :=
  match file with
  | none => (false, [])
  | some image =>
    if status.seeks then
      let got := min (min status.transferred count) (image.length - offset)
      (got = count, (List.range got).map fun i => image.byte (offset + i))
    else (false, [])

/-- The third component is how much has been written. -/
def fileWrite (file : Option Image) (status : FileStatus) (offset : Nat) (source : List UInt8)
    (count : Nat) : Bool × Option Image × Nat :=
  match file with
  | none => (false, none, 0)
  | some image =>
    if status.seeks then
      let written := min status.transferred count
      (written = count && status.flushes, some (image.overwrite offset (source.take written)),
        written)
    else (false, some image, 0)

namespace ImageCard

def sdRead (card : ImageCard) (sector sectors : UInt32) : (Bool × List UInt8) × ImageCard :=
  if sector + sectors ≤ card.sectors then
    let offset := sector.toNat * sectorSize
    let (success, bytes) := fileRead card.file card.status offset (sectors.toNat * sectorSize)
    ((success, bytes), { card with touched := ⟨offset, bytes.length⟩ :: card.touched })
  else ((false, []), card)

def sdWrite (card : ImageCard) (sector : UInt32) (source : List UInt8) (sectors : UInt32) :
    Bool × ImageCard :=
  if sector + sectors ≤ card.sectors then
    let offset := sector.toNat * sectorSize
    let (success, file, written) :=
      fileWrite card.file card.status offset source (sectors.toNat * sectorSize)
    (success, { card with file, touched := ⟨offset, written⟩ :: card.touched })
  else (false, card)

end ImageCard

def simulation : Device ImageCard where
  sdRead := ImageCard.sdRead
  sdWrite := ImageCard.sdWrite

end SimPLCity.DirectMedia
