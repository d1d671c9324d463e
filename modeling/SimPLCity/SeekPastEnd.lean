import SimPLCity.FileOffsets
import SimPLCity.OpenHandles

/-! Seeking past the end. The descriptor takes the target for its position, the FileX handle
stops at the end of the file, and a write goes where the handle is. -/

namespace SimPLCity.SeekPastEnd
open PathText FileXVolume PathTree FileDescriptors FileNamespace HandleSteps CallEffects CursorFile
  SoleDescriptor OpenHandles FileOffsets

/-- The object of the open handle behind a descriptor number. -/
def handleObject (fs : FileSystem) (file : Int) : ObjectId :=
  match slotOf file with
  | some i => (fs.descriptors i).file.object
  | none => 0

/-- What writing `buffer` after a seek to `target` should come to: `s` is the state after the
seek, `s'` the one after the write. -/
structure WritesAtTarget (s s' : FileSystem) (file : Int) (target : Nat) (buffer : List UInt8) :
    Prop where
  placed : ((s'.fx.content (handleObject s file)).drop target).take buffer.length = buffer
  gap : ∀ k, (s.fx.content (handleObject s file)).length ≤ k → k < target →
    (s'.fx.content (handleObject s file))[k]? = some 0
  offset : (sysLseek quiet s' file 0 .cur).2 = .ok (target + buffer.length)
  kept : ∀ i, slotOf file = some i → ∀ o mode,
    (switchMode o s.mounted s.fx (s.descriptors i) mode).2.1.position = target

section
variable {o : Outcomes} {fs : FileSystem} {fx : FileX} {d : FileDescriptor}

theorem fxFileWrite_length (x : Service) (h : Own fx d) (hd : d.openMode ≠ none)
    (fault : Option Fault) (bytes : List UInt8) (object : ObjectId) :
    ((x.fxFileWrite fault fx d.file bytes).2.1.content object).length ≤
      (fx.content object).length + bytes.length := by
  obtain ⟨hsize, hoff⟩ := h.sized hd
  rw [hsize] at hoff
  rcases fxFileWrite_cases x fault fx d.file bytes with ⟨st, hwrite⟩ | ⟨-, hwrite⟩ <;> rw [hwrite]
  · exact Nat.le_add_right ..
  · by_cases heq : object = d.file.object
    · subst heq
      simp only [Function.update_self, length_overwrite bytes hoff]
      omega
    · simp only [Function.update_of_ne heq]
      exact Nat.le_add_right ..

theorem sysWrite_length (h : Consistent fs) (file : Int) (buffer : List UInt8)
    (object : ObjectId) :
    ((sysWrite o fs file buffer).1.fx.content object).length ≤
      (fs.fx.content object).length + buffer.length := by
  unfold sysWrite
  cases hi : descriptorFor fs file with
  | none => exact Nat.le_add_right ..
  | some i =>
    simp only
    split
    · exact Nat.le_add_right ..
    · split
      · exact Nat.le_add_right ..
      · have hcontent := switchMode_content o fs.mounted fs.fx (fs.descriptors i) .write
        rcases hsw : switchMode o fs.mounted fs.fx (fs.descriptors i) .write with ⟨fx, d, _ | e⟩ <;>
          rw [hsw] at hcontent <;> simp only at hcontent
        · obtain ⟨hs, hmode⟩ := switchMode_steps hsw
          obtain ⟨hpos, hopen⟩ := positionForWrite_steps fs.mounted o fx d
          obtain ⟨_, hown⟩ := steps_registry (hs.trans hpos) h.registry (h.own i)
          have hd : (positionForWrite o d).1.openMode ≠ none := by simp [hopen, hmode rfl]
          rcases hp : positionForWrite o d with ⟨d', _ | e⟩ <;> rw [hp] at hown hd <;>
            simp only [hp, setDescriptor_fx, ← hcontent]
          · exact fxFileWrite_length o hown hd (o .fileWrite) buffer object
          · exact Nat.le_add_right ..
        · simp only [setDescriptor_fx, hcontent]
          exact Nat.le_add_right ..

end

theorem write_misses_target {fs : FileSystem} (h : Initial fs) (hsizes : EntrySizes fs.fx)
    (calls : List (Outcomes × SysCall)) {o o' : Outcomes} {file : Int} {s s' : FileSystem}
    {target written : Nat} {buffer : List UInt8}
    (hseek : sysLseek o (Runs.run stepCall fs calls) file target .set = (s, .ok target))
    (hpast : (s.fx.content (handleObject s file)).length < target) (hne : buffer ≠ [])
    (hwrite : sysWrite o' s file buffer = (s', .ok written)) :
    ¬ WritesAtTarget s s' file target buffer := by
  intro hat
  have hs : Consistent s := by
    have := (consistent_run h hsizes calls).exec (o := o) (.lseek file target .set)
    rwa [exec, answered, hseek] at this
  have hlength := sysWrite_length (o := o') hs file buffer (handleObject s file)
  simp only [hwrite] at hlength
  have hplaced := congrArg List.length hat.placed
  have hpos := List.length_pos_iff.mpr hne
  simp only [List.length_take, List.length_drop] at hplaced
  omega

/-- A file of one byte, open for reading and writing. -/
def oneByte : FileSystem :=
  Runs.run stepCall emptyVolumes
    [(quiet, .open ['x'] readWriteCreate), (quiet, .write 3 [1])]

set_option maxRecDepth 20000 in
/-- Seeking to 3 and writing 2: the byte lands behind the first one, not at 3. -/
theorem write_behind_end :
    let s := (sysLseek quiet oneByte 3 3 .set).1
    let s' := (sysWrite quiet s 3 [2]).1
    (sysLseek quiet oneByte 3 3 .set).2 = .ok 3 ∧ (sysWrite quiet s 3 [2]).2 = .ok 1 ∧
      s'.fx.content (handleObject s 3) = [1, 2] ∧ (sysLseek quiet s' 3 0 .cur).2 = .ok 2 ∧
      ¬ WritesAtTarget s s' 3 3 [2] := by
  refine ⟨by decide, by decide, by decide, by decide, fun h => absurd h.placed (by decide)⟩

set_option maxRecDepth 20000 in
theorem write_misses_target_behind_end :
    let s := (sysLseek quiet oneByte 3 3 .set).1
    ¬ WritesAtTarget s (sysWrite quiet s 3 [2]).1 3 3 [2] :=
  write_misses_target emptyVolumes_initial entrySizes_emptyVolumes
    [(quiet, .open ['x'] readWriteCreate), (quiet, .write 3 [1])] (Prod.ext rfl (by decide))
    (by decide) (by decide) (Prod.ext rfl (by decide))

end SimPLCity.SeekPastEnd
