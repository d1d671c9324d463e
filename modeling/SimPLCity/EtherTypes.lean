import Mathlib.Data.List.Basic

/-! Raw frames and their EtherTypes. A type stands at offset 12, and behind each VLAN tag four
bytes further. -/

namespace SimPLCity.EtherTypes

abbrev Frame := List UInt8

abbrev EtherType := UInt16

abbrev vlan : EtherType := 0x8100

abbrev etherCat : EtherType := 0x88A4

abbrev serviceVlan : EtherType := 0x88A8

abbrev ethernetHeaderSize : Nat := 14

abbrev maxFrameSize : Nat := 1522

abbrev etherTypeOffset : Nat := 12

def readEtherType (hi lo : UInt8) : EtherType := hi.toUInt16 <<< 8 ||| lo.toUInt16

def isTag (type : EtherType) : Bool := type = vlan || type = serviceVlan

def frameOuterEtherType (frame : Frame) : Option EtherType :=
  if frame.length < ethernetHeaderSize then none
  else some (readEtherType (frame.getD etherTypeOffset 0) (frame.getD (etherTypeOffset + 1) 0))

/-- The loop over the tags. `rest` is what follows the type in the frame. -/
def innerEtherType (type : EtherType) (rest : Frame) : Option EtherType :=
  if isTag type then
    match rest with
    | _ :: _ :: hi :: lo :: rest => innerEtherType (readEtherType hi lo) rest
    | _ => none
  else some type

def frameEtherType (frame : Frame) : Option EtherType :=
  (frameOuterEtherType frame).bind fun type => innerEtherType type (frame.drop (etherTypeOffset + 2))

/-- What stands where the types behind tags stand. -/
def typesBehind : Frame → List EtherType
  | _ :: _ :: hi :: lo :: rest => readEtherType hi lo :: typesBehind rest
  | _ => []

/-- What stands where a type can stand. -/
def types (frame : Frame) : List EtherType :=
  (frameOuterEtherType frame).toList ++ typesBehind (frame.drop (etherTypeOffset + 2))

/-- The number of tags in front of the type. -/
def tagDepth (frame : Frame) : Nat := ((types frame).takeWhile isTag).length

theorem innerEtherType_eq (type : EtherType) (rest : Frame) :
    innerEtherType type rest = (type :: typesBehind rest).find? fun type => !isTag type := by
  fun_induction typesBehind rest generalizing type with
  | case1 _ _ hi lo rest ih =>
    rw [innerEtherType, List.find?_cons, ih]
    cases isTag type <;> rfl
  | case2 rest hrest =>
    unfold innerEtherType
    cases h : isTag type with
    | false => simp [h]
    | true =>
      simp only [if_true, List.find?_cons, h, Bool.not_true, List.find?_nil]

theorem frameEtherType_eq (frame : Frame) :
    frameEtherType frame = (types frame).find? fun type => !isTag type := by
  unfold frameEtherType types
  cases h : frameOuterEtherType frame with
  | none =>
    -- a frame without a first type has nothing behind it
    have hshort : frame.length < ethernetHeaderSize := by
      by_contra hlong
      rw [frameOuterEtherType, if_neg hlong] at h
      cases h
    rw [List.drop_eq_nil_of_le (Nat.le_of_lt hshort)]
    rfl
  | some type => exact innerEtherType_eq type _

/-- The halfword at an offset, if the frame has it. -/
def halfwordAt (frame : Frame) (k : Nat) : Option EtherType :=
  if k + 2 ≤ frame.length then some (readEtherType (frame.getD k 0) (frame.getD (k + 1) 0)) else none

theorem halfwordAt_drop (frame : Frame) (m k : Nat) :
    halfwordAt (frame.drop m) k = halfwordAt frame (m + k) := by
  unfold halfwordAt
  simp only [List.length_drop, List.getD_eq_getElem?_getD, List.getElem?_drop, Nat.add_assoc]
  split <;> split <;> first | rfl | omega

theorem typesBehind_getElem? (rest : Frame) (n : Nat) :
    (typesBehind rest)[n]? = halfwordAt rest (4 * n + 2) := by
  fun_induction typesBehind rest generalizing n with
  | case1 a b hi lo rest ih =>
    cases n with
    | zero => simp [halfwordAt]
    | succ n =>
      have hdrop := halfwordAt_drop (a :: b :: hi :: lo :: rest) 4 (4 * n + 2)
      rw [List.getElem?_cons_succ, ih, show 4 * (n + 1) + 2 = 4 + (4 * n + 2) by omega, ← hdrop]
      rfl
  | case2 rest hrest =>
    have hshort : rest.length < 4 := by
      match rest, hrest with
      | [], _ | [_], _ | [_, _], _ | [_, _, _], _ => simp
      | a :: b :: hi :: lo :: rest, h => exact (h a b hi lo rest rfl).elim
    rw [halfwordAt, if_neg (by omega)]
    rfl

theorem types_getElem? (frame : Frame) (n : Nat) :
    (types frame)[n]? = halfwordAt frame (etherTypeOffset + 4 * n) := by
  unfold types frameOuterEtherType
  simp only [ethernetHeaderSize, etherTypeOffset]
  split
  · rename_i hshort
    rw [List.drop_eq_nil_of_le (Nat.le_of_lt hshort), halfwordAt, if_neg (by omega)]
    rfl
  · rename_i hlong
    cases n with
    | zero =>
      rw [halfwordAt, if_pos (by omega)]
      rfl
    | succ n =>
      have h := typesBehind_getElem? (frame.drop 14) n
      rw [halfwordAt_drop] at h
      simp only [Option.toList_some, List.singleton_append, List.getElem?_cons_succ]
      rw [h]
      congr 1
      omega

end SimPLCity.EtherTypes
