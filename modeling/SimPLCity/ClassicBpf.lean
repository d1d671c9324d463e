import Mathlib.Data.List.Basic

/-! Classic BPF programs over loads of halfwords, jumps on equality and returns. Jumps go forward
only, so that a program is run by recursion over its instructions. -/

namespace SimPLCity.ClassicBpf

inductive Instruction
  | ldHalfAbs (k : Nat)
  | jeq (k : UInt32) (jt jf : Nat)
  | ret (k : UInt32)
deriving DecidableEq, Repr

variable {packet : List UInt8} {a : UInt32} {rest : List Instruction}

/-- The halfword at an offset, in network order, if the packet has it. -/
def loadHalf (packet : List UInt8) (k : Nat) : Option UInt32 :=
  if k + 2 ≤ packet.length then
    some ((packet.getD k 0).toUInt32 <<< 8 ||| (packet.getD (k + 1) 0).toUInt32)
  else none

/-- What the program returns, with `a` in the accumulator and `skip` instructions to jump over. A
load beyond the end of the packet returns 0. -/
def exec (packet : List UInt8) : (a : UInt32) → (skip : Nat) → List Instruction → UInt32
  | a, skip + 1, _ :: rest => exec packet a skip rest
  | _, 0, .ldHalfAbs k :: rest =>
    match loadHalf packet k with
    | some a => exec packet a 0 rest
    | none => 0
  | a, 0, .jeq k jt jf :: rest => exec packet a (if a = k then jt else jf) rest
  | _, 0, .ret k :: _ => k
  | _, _, [] => 0

/-- The packet is kept: the program returns a length that is not 0. -/
def accepts (program : List Instruction) (packet : List UInt8) : Bool := exec packet 0 0 program ≠ 0

@[simp] theorem exec_skip (skip : Nat) (i : Instruction) :
    exec packet a (skip + 1) (i :: rest) = exec packet a skip rest := rfl

@[simp] theorem exec_ret (k : UInt32) : exec packet a 0 (.ret k :: rest) = k := rfl

theorem exec_load {k : Nat} {w : UInt32} (h : loadHalf packet k = some w) :
    exec packet a 0 (.ldHalfAbs k :: rest) = exec packet w 0 rest := by simp only [exec, h]

theorem exec_load_none {k : Nat} (h : loadHalf packet k = none) :
    exec packet a 0 (.ldHalfAbs k :: rest) = 0 := by simp only [exec, h]

theorem exec_jeq_of_eq {k : UInt32} {jt jf : Nat} (h : a = k) :
    exec packet a 0 (.jeq k jt jf :: rest) = exec packet a jt rest := by simp only [exec, if_pos h]

theorem exec_jeq_of_ne {k : UInt32} {jt jf : Nat} (h : a ≠ k) :
    exec packet a 0 (.jeq k jt jf :: rest) = exec packet a jf rest := by simp only [exec, if_neg h]

end SimPLCity.ClassicBpf
