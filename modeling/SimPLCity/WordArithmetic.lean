import Mathlib.Algebra.Group.Int.Defs
import Mathlib.Algebra.Group.Nat.Defs

/-! Machine arithmetic that keeps an account of itself: the value is the one that the machine
computes, and `exact` says whether every operation on the way has had its mathematical result. -/

namespace SimPLCity.WordArithmetic

/-- Types whose values stand for integers. -/
class MachineInteger (α : Type) where
  toInt : α → Int

export MachineInteger (toInt)

instance : MachineInteger UInt32 := ⟨fun x => x.toNat⟩
instance : MachineInteger UInt64 := ⟨fun x => x.toNat⟩
instance : MachineInteger Int32 := ⟨Int32.toInt⟩
instance : MachineInteger Int64 := ⟨Int64.toInt⟩

@[simp] theorem toInt_uInt32 (x : UInt32) : toInt x = x.toNat := rfl

@[simp] theorem toInt_uInt64 (x : UInt64) : toInt x = x.toNat := rfl

@[simp] theorem toInt_int32 (x : Int32) : toInt x = x.toInt := rfl

@[simp] theorem toInt_int64 (x : Int64) : toInt x = x.toInt := rfl

structure Accounted (α : Type) where
  value : α
  exact : Bool := true

instance : Monad Accounted where
  pure x := ⟨x, true⟩
  bind x f := ⟨(f x.value).value, x.exact && (f x.value).exact⟩

section
variable {α β : Type}

@[simp] theorem pure_value (x : α) : (pure x : Accounted α).value = x := rfl

@[simp] theorem pure_exact (x : α) : (pure x : Accounted α).exact = true := rfl

@[simp] theorem bind_value (x : Accounted α) (f : α → Accounted β) :
    (x >>= f).value = (f x.value).value := rfl

@[simp] theorem bind_exact (x : Accounted α) (f : α → Accounted β) :
    (x >>= f).exact = (x.exact && (f x.value).exact) := rfl

theorem value_bind {x : Accounted α} {f : α → Accounted β} {a : α} (h : x.value = a) :
    (x >>= f).value = (f a).value := by
  rw [← h, bind_value]

variable [MachineInteger α] [MachineInteger β]

def add [Add α] (a b : α) : Accounted α := ⟨a + b, toInt (a + b) = toInt a + toInt b⟩

def sub [Sub α] (a b : α) : Accounted α := ⟨a - b, toInt (a - b) = toInt a - toInt b⟩

def mul [Mul α] (a b : α) : Accounted α := ⟨a * b, toInt (a * b) = toInt a * toInt b⟩

/-- Division that rounds towards zero; there is none by zero. -/
def div [Div α] (a b : α) : Accounted α :=
  ⟨a / b, toInt b ≠ 0 ∧ toInt (a / b) = (toInt a).tdiv (toInt b)⟩

def mod [Mod α] (a b : α) : Accounted α :=
  ⟨a % b, toInt b ≠ 0 ∧ toInt (a % b) = (toInt a).tmod (toInt b)⟩

def neg [Neg α] (a : α) : Accounted α := ⟨-a, toInt (-a) = -toInt a⟩

/-- A conversion between types. -/
def convert (f : α → β) (a : α) : Accounted β := ⟨f a, toInt (f a) = toInt a⟩

@[simp] theorem add_value [Add α] (a b : α) : (add a b).value = a + b := rfl

@[simp] theorem sub_value [Sub α] (a b : α) : (sub a b).value = a - b := rfl

@[simp] theorem mul_value [Mul α] (a b : α) : (mul a b).value = a * b := rfl

@[simp] theorem div_value [Div α] (a b : α) : (div a b).value = a / b := rfl

@[simp] theorem mod_value [Mod α] (a b : α) : (mod a b).value = a % b := rfl

@[simp] theorem convert_value (f : α → β) (a : α) : (convert f a).value = f a := rfl

theorem convert_exact {f : α → β} {a : α} (h : toInt (f a) = toInt a) :
    (convert f a).exact = true := decide_eq_true h

end

theorem toNat_toUInt64 {x : Int64} (h : 0 ≤ x) : (x.toUInt64.toNat : Int) = x.toInt := by
  rw [Int64.toNat_toUInt64_of_le h, Int64.cast_toNatClampNeg x h]

/-! `Yields` is the rule of composition: a computation is exact when each of its steps is, given
what the steps before it yield. -/

/-- The computation is exact and its value has the property. -/
def Yields {α : Type} (x : Accounted α) (P : α → Prop) : Prop := P x.value ∧ x.exact = true

namespace Yields

section
variable {α β : Type} {P : α → Prop} {Q : β → Prop}

theorem pure {a : α} (h : P a) : Yields (Pure.pure a) P := ⟨h, rfl⟩

theorem bind {x : Accounted α} {f : α → Accounted β} (hx : Yields x P)
    (hf : ∀ a, P a → Yields (f a) Q) : Yields (x >>= f) Q := by
  obtain ⟨hvalue, hexact⟩ := hf x.value hx.1
  apply And.intro hvalue
  rw [bind_exact, hx.2, hexact]
  rfl

theorem mono {x : Accounted α} {P' : α → Prop} (h : Yields x P) (himp : ∀ a, P a → P' a) :
    Yields x P' := ⟨himp _ h.1, h.2⟩

variable [MachineInteger α] [MachineInteger β]

theorem convert {f : α → β} {a : α} (h : toInt (f a) = toInt a) :
    Yields (convert f a) fun b => toInt b = toInt a := ⟨h, convert_exact h⟩

end

section
variable {a b : UInt64}

theorem add (h : a.toNat + b.toNat < 2 ^ 64) :
    Yields (add a b) fun c => c.toNat = a.toNat + b.toNat := by
  have hsum : (a + b).toNat = a.toNat + b.toNat := by
    rw [UInt64.toNat_add, Nat.mod_eq_of_lt h]
  exact ⟨hsum, by simp [WordArithmetic.add, hsum]⟩

theorem sub (h : b.toNat ≤ a.toNat) : Yields (sub a b) fun c => c.toNat = a.toNat - b.toNat := by
  have hdifference : (a - b).toNat = a.toNat - b.toNat := UInt64.toNat_sub_of_le a b h
  exact ⟨hdifference, by simp [WordArithmetic.sub, hdifference, Int.ofNat_sub h]⟩

theorem mul (h : a.toNat * b.toNat < 2 ^ 64) :
    Yields (mul a b) fun c => c.toNat = a.toNat * b.toNat := by
  have hproduct : (a * b).toNat = a.toNat * b.toNat := by
    rw [UInt64.toNat_mul, Nat.mod_eq_of_lt h]
  exact ⟨hproduct, by simp [WordArithmetic.mul, hproduct]⟩

theorem div (h : 0 < b.toNat) : Yields (div a b) fun c => c.toNat = a.toNat / b.toNat := by
  have hquotient : (a / b).toNat = a.toNat / b.toNat := UInt64.toNat_div ..
  exact ⟨hquotient, decide_eq_true ⟨by simp; omega, by simp [hquotient]⟩⟩

theorem mod (h : 0 < b.toNat) : Yields (mod a b) fun c => c.toNat = a.toNat % b.toNat := by
  have hremainder : (a % b).toNat = a.toNat % b.toNat := UInt64.toNat_mod ..
  exact ⟨hremainder, decide_eq_true ⟨by simp; omega, by
    rw [toInt_uInt64, hremainder]
    exact Int.ofNat_tmod ..⟩⟩

theorem narrow (h : a.toNat < 2 ^ 32) :
    Yields (WordArithmetic.convert UInt64.toUInt32 a) fun c => c.toNat = a.toNat := by
  have hsame : a.toUInt32.toNat = a.toNat := by
    rw [UInt64.toNat_toUInt32, Nat.mod_eq_of_lt h]
  exact ⟨hsame, convert_exact (by simp [hsame])⟩

theorem unsigned {a : Int64} (h : 0 ≤ a) :
    Yields (WordArithmetic.convert Int64.toUInt64 a) fun c => (c.toNat : Int) = a.toInt :=
  ⟨toNat_toUInt64 h, convert_exact (toNat_toUInt64 h)⟩

end

section
variable {a b : Int64}

theorem signedAdd (hlow : -2 ^ 63 ≤ a.toInt + b.toInt) (hhigh : a.toInt + b.toInt < 2 ^ 63) :
    Yields (WordArithmetic.add a b) fun c => c.toInt = a.toInt + b.toInt := by
  have hsum : (a + b).toInt = a.toInt + b.toInt := by
    rw [Int64.toInt_add, Int.bmod_eq_of_le (by omega) (by omega)]
  exact ⟨hsum, by simp [WordArithmetic.add, hsum]⟩

theorem signedSub (hlow : -2 ^ 63 ≤ a.toInt - b.toInt) (hhigh : a.toInt - b.toInt < 2 ^ 63) :
    Yields (WordArithmetic.sub a b) fun c => c.toInt = a.toInt - b.toInt := by
  have hdifference : (a - b).toInt = a.toInt - b.toInt := by
    rw [Int64.toInt_sub, Int.bmod_eq_of_le (by omega) (by omega)]
  exact ⟨hdifference, by simp [WordArithmetic.sub, hdifference]⟩

theorem signedMul (hlow : -2 ^ 63 ≤ a.toInt * b.toInt) (hhigh : a.toInt * b.toInt < 2 ^ 63) :
    Yields (WordArithmetic.mul a b) fun c => c.toInt = a.toInt * b.toInt := by
  have hproduct : (a * b).toInt = a.toInt * b.toInt := by
    rw [Int64.toInt_mul, Int.bmod_eq_of_le (by omega) (by omega)]
  exact ⟨hproduct, by simp [WordArithmetic.mul, hproduct]⟩

theorem signedNeg (h : -2 ^ 63 < a.toInt) :
    Yields (WordArithmetic.neg a) fun c => c.toInt = -a.toInt := by
  have hhigh := a.toInt_lt
  have hopposite : (-a).toInt = -a.toInt := by
    rw [Int64.toInt_neg, Int.bmod_eq_of_le (by omega) (by omega)]
  exact ⟨hopposite, by simp [WordArithmetic.neg, hopposite]⟩

end

/-! Words of 32 bits. -/

section
variable {a b : UInt32}

theorem add32 (h : a.toNat + b.toNat < 2 ^ 32) :
    Yields (WordArithmetic.add a b) fun c => c.toNat = a.toNat + b.toNat := by
  have hsum : (a + b).toNat = a.toNat + b.toNat := by
    rw [UInt32.toNat_add, Nat.mod_eq_of_lt h]
  exact ⟨hsum, by simp [WordArithmetic.add, hsum]⟩

theorem sub32 (h : b.toNat ≤ a.toNat) :
    Yields (WordArithmetic.sub a b) fun c => c.toNat = a.toNat - b.toNat := by
  have hdifference : (a - b).toNat = a.toNat - b.toNat := UInt32.toNat_sub_of_le a b h
  exact ⟨hdifference, by simp [WordArithmetic.sub, hdifference, Int.ofNat_sub h]⟩

theorem mul32 (h : a.toNat * b.toNat < 2 ^ 32) :
    Yields (WordArithmetic.mul a b) fun c => c.toNat = a.toNat * b.toNat := by
  have hproduct : (a * b).toNat = a.toNat * b.toNat := by
    rw [UInt32.toNat_mul, Nat.mod_eq_of_lt h]
  exact ⟨hproduct, by simp [WordArithmetic.mul, hproduct]⟩

theorem div32 (h : 0 < b.toNat) :
    Yields (WordArithmetic.div a b) fun c => c.toNat = a.toNat / b.toNat := by
  have hquotient : (a / b).toNat = a.toNat / b.toNat := UInt32.toNat_div ..
  exact ⟨hquotient, decide_eq_true ⟨by simp; omega, by simp [hquotient]⟩⟩

end

section
variable {a b : Int32}

theorem signedAdd32 (hlow : -2 ^ 31 ≤ a.toInt + b.toInt) (hhigh : a.toInt + b.toInt < 2 ^ 31) :
    Yields (WordArithmetic.add a b) fun c => c.toInt = a.toInt + b.toInt := by
  have hsum : (a + b).toInt = a.toInt + b.toInt := by
    rw [Int32.toInt_add, Int.bmod_eq_of_le (by omega) (by omega)]
  exact ⟨hsum, by simp [WordArithmetic.add, hsum]⟩

theorem signedSub32 (hlow : -2 ^ 31 ≤ a.toInt - b.toInt) (hhigh : a.toInt - b.toInt < 2 ^ 31) :
    Yields (WordArithmetic.sub a b) fun c => c.toInt = a.toInt - b.toInt := by
  have hdifference : (a - b).toInt = a.toInt - b.toInt := by
    rw [Int32.toInt_sub, Int.bmod_eq_of_le (by omega) (by omega)]
  exact ⟨hdifference, by simp [WordArithmetic.sub, hdifference]⟩

theorem signedMul32 (hlow : -2 ^ 31 ≤ a.toInt * b.toInt) (hhigh : a.toInt * b.toInt < 2 ^ 31) :
    Yields (WordArithmetic.mul a b) fun c => c.toInt = a.toInt * b.toInt := by
  have hproduct : (a * b).toInt = a.toInt * b.toInt := by
    rw [Int32.toInt_mul, Int.bmod_eq_of_le (by omega) (by omega)]
  exact ⟨hproduct, by simp [WordArithmetic.mul, hproduct]⟩

/-- The one quotient that does not fit is that of the least number by -1. -/
theorem signedDiv32 (h : 0 < b.toInt) :
    Yields (WordArithmetic.div a b) fun c => c.toInt = a.toInt.tdiv b.toInt := by
  have hb : b ≠ -1 := by
    rintro rfl
    exact absurd h (by decide)
  have hquotient : (a / b).toInt = a.toInt.tdiv b.toInt := Int32.toInt_div_of_ne_right a b hb
  exact ⟨hquotient, decide_eq_true ⟨by simp; omega, by simp [hquotient]⟩⟩

end

end Yields

theorem add_exact_iff {a b : UInt64} :
    (add a b).exact = true ↔ a.toNat + b.toNat < 2 ^ 64 := by
  constructor
  · intro h
    have hlt := (a + b).toNat_lt
    simp only [add, toInt_uInt64, decide_eq_true_eq] at h
    omega
  · intro h
    exact (Yields.add h).2

end SimPLCity.WordArithmetic
