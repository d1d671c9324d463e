import SimPLCity.LocatedPaths

/-! `_stat` and `_fstat`. A stat asks the directory entry and then every handle that is open under
a spelling of the path; an fstat asks its own handle. -/

namespace SimPLCity.StatCall
open PathText FileXVolume FileDescriptors FileNamespace LocatedPaths

/-- `fill_stat` clears the record before it fills it, and leaves the device at that. -/
structure StatRecord extends Stat where
  device : Nat
deriving DecidableEq, Repr

def fillRecord (path : CStr) (info : EntryInformation) : StatRecord :=
  { fillStat path info with device := 0 }

/-- The largest of a size and the sizes that the handles open under this path know. -/
def largestSize (fs : FileSystem) (normalized : CStr) (size : Nat) : Nat :=
  (List.finRange maximumOpenFiles).foldl (fun size i =>
    let d := fs.descriptors i
    if d.allocated && d.openMode.isSome && pathsEqual d.path normalized then
      max size d.file.currentFileSize
    else size) size

def sysStat (o : Outcomes) (fs : FileSystem) (path : CStr) : Except Errno StatRecord := do
  let info ← informationUnlocked o (o .information) fs path
  let normalized ← normalizePathUnlocked fs.currentDirectory path
  .ok (fillRecord normalized { info with size := largestSize fs normalized info.size })

/-- `sysFstat` with the device. -/
def fstatRecord (o : Outcomes) (fs : FileSystem) (file : Int) : Except Errno StatRecord :=
  (sysFstat o fs file).map fun s => { s with device := 0 }

section
variable {o : Outcomes} {fs : FileSystem} {path normalized : CStr} {file : Int}
  {i : Fin maximumOpenFiles} {s : StatRecord}

theorem sysStat_ok (h : sysStat o fs path = .ok s) :
    ∃ info normalized, informationUnlocked o (o .information) fs path = .ok info ∧
      normalizePathUnlocked fs.currentDirectory path = .ok normalized ∧
      s = fillRecord normalized { info with size := largestSize fs normalized info.size } := by
  obtain ⟨info, hinfo, h⟩ := bind_eq_ok h
  obtain ⟨normalized, hnormalized, h⟩ := bind_eq_ok h
  exact ⟨info, normalized, hinfo, hnormalized, (Except.ok.inj h).symm⟩

theorem fstatRecord_ok (hi : descriptorFor fs file = some i) (h : fstatRecord o fs file = .ok s) :
    ∃ info, informationUnlocked o (o .information) fs (fs.descriptors i).path = .ok info ∧
      s = fillRecord (fs.descriptors i).path
        (if (fs.descriptors i).openMode.isSome then
          { info with size := (fs.descriptors i).file.currentFileSize }
        else info) := by
  unfold fstatRecord sysFstat at h
  rw [hi] at h
  cases hinfo : informationUnlocked o (o .information) fs (fs.descriptors i).path with
  | error e =>
    simp only [hinfo] at h
    cases h
  | ok info =>
    simp only [hinfo] at h
    exact ⟨info, rfl, (Except.ok.inj h).symm⟩

end

end SimPLCity.StatCall
