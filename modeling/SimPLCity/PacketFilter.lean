import SimPLCity.ClassicBpf
import SimPLCity.EtherTypes

/-! The packet filter of the Linux backend, and how far it agrees with `frameEtherType`. -/

namespace SimPLCity.PacketFilter
open EtherTypes ClassicBpf

/-- The program that `attach_ether_type_filter` attaches. -/
def etherTypeFilter (etherType : EtherType) : List Instruction := [
  .ldHalfAbs 12,
  .jeq etherType.toUInt32 8 0,
  .jeq vlan.toUInt32 1 0,
  .jeq serviceVlan.toUInt32 0 7,
  .ldHalfAbs 16,
  .jeq etherType.toUInt32 4 0,
  .jeq vlan.toUInt32 1 0,
  .jeq serviceVlan.toUInt32 0 3,
  .ldHalfAbs 20,
  .jeq etherType.toUInt32 0 1,
  .ret 0xFFFF,
  .ret 0]

/-- The type is among the first `n + 1` types, with tags only in front of it. -/
def selects (etherType : EtherType) : Nat → List EtherType → Bool
  | _, [] => false
  | 0, type :: _ => type = etherType
  | n + 1, type :: types => type = etherType || (isTag type && selects etherType n types)

theorem loadHalf_eq (frame : Frame) (k : Nat) :
    loadHalf frame k = (halfwordAt frame k).map UInt16.toUInt32 := by
  have hword : ∀ hi lo : UInt8,
      (readEtherType hi lo).toUInt32 = hi.toUInt32 <<< 8 ||| lo.toUInt32 := by
    intro hi lo
    have hhi := hi.toNat_lt
    apply UInt32.toNat_inj.mp
    have hshift : hi.toNat <<< 8 < 2 ^ 16 := by
      rw [Nat.shiftLeft_eq]
      omega
    have hword : hi.toNat <<< 8 % 4294967296 = hi.toNat <<< 8 :=
      Nat.mod_eq_of_lt (Nat.lt_trans hshift (by decide))
    have hhalf : hi.toNat <<< 8 % 65536 = hi.toNat <<< 8 := Nat.mod_eq_of_lt hshift
    simp [readEtherType, UInt32.toNat_shiftLeft, hword, hhalf]
  unfold loadHalf halfwordAt
  split
  · rw [Option.map_some, hword]
  · rfl

/-- The part of the program that looks at one level of types. -/
def level (etherType : EtherType) (k hit miss : Nat) : List Instruction :=
  [.ldHalfAbs k, .jeq etherType.toUInt32 hit 0, .jeq vlan.toUInt32 1 0,
    .jeq serviceVlan.toUInt32 0 miss]

theorem exec_level {etherType : EtherType} {frame : Frame} {a : UInt32} {k hit miss : Nat}
    {rest : List Instruction} :
    exec frame a 0 (level etherType k (hit + 2) miss ++ rest) =
      match halfwordAt frame k with
      | none => 0
      | some type => exec frame type.toUInt32
          (if type = etherType then hit else if isTag type then 0 else miss) rest := by
  unfold level
  cases h : halfwordAt frame k with
  | none => exact exec_load_none (by rw [loadHalf_eq, h, Option.map_none])
  | some type =>
    rw [List.cons_append, exec_load (by rw [loadHalf_eq, h, Option.map_some])]
    dsimp only
    by_cases hhit : type = etherType
    · rw [List.cons_append, exec_jeq_of_eq (by rw [hhit]), if_pos hhit]
      rfl
    · rw [List.cons_append, exec_jeq_of_ne (fun heq => hhit (UInt16.toUInt32_inj.mp heq)),
        if_neg hhit, List.cons_append]
      by_cases hvlan : type = vlan
      · rw [exec_jeq_of_eq (by rw [hvlan]), if_pos (by simp [isTag, hvlan])]
        rfl
      · rw [exec_jeq_of_ne (fun heq => hvlan (UInt16.toUInt32_inj.mp heq)), List.cons_append]
        by_cases hservice : type = serviceVlan
        · rw [exec_jeq_of_eq (by rw [hservice]), if_pos (by simp [isTag, hservice])]
          rfl
        · rw [exec_jeq_of_ne (fun heq => hservice (UInt16.toUInt32_inj.mp heq)),
            if_neg (by simp [isTag, hvlan, hservice])]
          rfl

/-- The program from a level on selects among the types from that level on. -/
def Selects (frame : Frame) (etherType : EtherType) (program : List Instruction) (n m : Nat) : Prop :=
  ∀ a, decide (exec frame a 0 program ≠ 0) = selects etherType n ((types frame).drop m)

section
variable {frame : Frame} {etherType : EtherType} {m k : Nat}

theorem selects_last (hk : k = etherTypeOffset + 4 * m) :
    Selects frame etherType
      [.ldHalfAbs k, .jeq etherType.toUInt32 0 1, .ret 0xFFFF, .ret 0] 0 m := by
  intro a
  have hat := types_getElem? frame m
  rw [← hk, ← Nat.add_zero m, ← List.getElem?_drop] at hat
  cases hdrop : (types frame).drop m with
  | nil =>
    rw [hdrop] at hat
    rw [exec_load_none (by rw [loadHalf_eq, ← hat]; rfl)]
    rfl
  | cons type rest =>
    rw [hdrop] at hat
    rw [exec_load (w := type.toUInt32) (by rw [loadHalf_eq, ← hat]; rfl)]
    by_cases hhit : type = etherType
    · rw [exec_jeq_of_eq (by rw [hhit])]
      simp [selects, hhit]
    · rw [exec_jeq_of_ne (fun heq => hhit (UInt16.toUInt32_inj.mp heq))]
      simp [selects, hhit]

theorem selects_level {rest : List Instruction} {hit miss n : Nat}
    (hk : k = etherTypeOffset + 4 * m) (hhit : ∀ a, exec frame a hit rest ≠ 0)
    (hmiss : ∀ a, exec frame a miss rest = 0) (hrest : Selects frame etherType rest n (m + 1)) :
    Selects frame etherType (level etherType k (hit + 2) miss ++ rest) (n + 1) m := by
  intro a
  have hat := types_getElem? frame m
  rw [← hk, ← Nat.add_zero m, ← List.getElem?_drop] at hat
  rw [exec_level, ← hat]
  cases hdrop : (types frame).drop m with
  | nil => rfl
  | cons type types' =>
    have htail : (types frame).drop (m + 1) = types' := by rw [← List.tail_drop, hdrop, List.tail_cons]
    dsimp only [List.getElem?_cons_zero]
    by_cases heq : type = etherType
    · simp [selects, heq, hhit]
    · by_cases htag : isTag type
      · have hbehind := hrest type.toUInt32
        rw [htail] at hbehind
        simpa [selects, heq, htag] using hbehind
      · simp [selects, heq, htag, hmiss]

end

theorem accepts_eq_selects (etherType : EtherType) (frame : Frame) :
    accepts (etherTypeFilter etherType) frame = selects etherType 2 (types frame) := by
  have hkeep : (0xFFFF : UInt32) ≠ 0 := by decide
  have hlast : Selects frame etherType
      [.ldHalfAbs 20, .jeq etherType.toUInt32 0 1, .ret 0xFFFF, .ret 0] 0 2 := selects_last rfl
  have hsecond : Selects frame etherType ((etherTypeFilter etherType).drop 4) 1 1 :=
    selects_level rfl (fun _ => by exact hkeep) (fun _ => by rfl) hlast
  have hfirst : Selects frame etherType (etherTypeFilter etherType) 2 0 :=
    selects_level rfl (fun _ => by exact hkeep) (fun _ => by rfl) hsecond
  exact hfirst 0

/-- For a type that is not a tag, a selection is the first type that is not a tag, and near enough. -/
theorem selects_iff {etherType : EtherType} (htag : isTag etherType = false) (n : Nat)
    (types : List EtherType) : selects etherType n types = true ↔
      (types.find? fun type => !isTag type) = some etherType ∧ (types.takeWhile isTag).length ≤ n := by
  induction types generalizing n with
  | nil => cases n <;> simp [selects]
  | cons type types ih =>
    by_cases ht : isTag type
    · have hne : type ≠ etherType := fun heq => by
        rw [heq, htag] at ht
        cases ht
      cases n with
      | zero => simp [selects, ht, hne]
      | succ n => simp [selects, ht, hne, ih n]
    · cases n <;> simp [selects, ht]

theorem frameEtherType_not_tag {frame : Frame} {type : EtherType}
    (h : frameEtherType frame = some type) : isTag type = false := by
  rw [frameEtherType_eq] at h
  simpa using List.find?_some h

theorem filter_agrees (etherType : EtherType) (frame : Frame) :
    (isTag etherType = false → (accepts (etherTypeFilter etherType) frame = true ↔
      frameEtherType frame = some etherType ∧ tagDepth frame ≤ 2)) ∧
    (isTag etherType = true → frameEtherType frame ≠ some etherType) := by
  constructor
  · intro htag
    rw [accepts_eq_selects, frameEtherType_eq]
    exact selects_iff htag 2 (types frame)
  · intro htag heq
    rw [frameEtherType_not_tag heq] at htag
    cases htag

theorem filter_agrees_vlan :
    accepts (etherTypeFilter etherCat) (List.replicate 12 0 ++ [0x81, 0, 0, 1, 0x88, 0xA4]) = true ↔
      frameEtherType (List.replicate 12 0 ++ [0x81, 0, 0, 1, 0x88, 0xA4]) = some etherCat ∧
        tagDepth (List.replicate 12 0 ++ [0x81, 0, 0, 1, 0x88, 0xA4]) ≤ 2 :=
  (filter_agrees etherCat _).1 (by decide)

/-- The kernel drops a frame with three tags that `receive` would return, and keeps a tagged frame
for a tag as the type. -/
theorem filter_not_agrees :
    ¬ (accepts (etherTypeFilter etherCat) (List.replicate 12 0 ++
          [0x81, 0, 0, 1, 0x81, 0, 0, 2, 0x81, 0, 0, 3, 0x88, 0xA4]) = true ↔
        frameEtherType (List.replicate 12 0 ++
          [0x81, 0, 0, 1, 0x81, 0, 0, 2, 0x81, 0, 0, 3, 0x88, 0xA4]) = some etherCat) ∧
      ¬ (accepts (etherTypeFilter vlan) (List.replicate 12 0 ++ [0x81, 0, 0, 1, 0x88, 0xA4]) = true ↔
        frameEtherType (List.replicate 12 0 ++ [0x81, 0, 0, 1, 0x88, 0xA4]) = some vlan) := by
  decide +kernel

end SimPLCity.PacketFilter
