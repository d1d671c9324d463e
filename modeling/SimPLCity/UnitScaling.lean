import SimPLCity.WordArithmetic

/-! Converting an amount from one unit to another without overflow: the whole seconds and the rest
are converted one by one, and nothing is returned where the sum would exceed a limit. -/

namespace SimPLCity.UnitScaling
open WordArithmetic

/-- The greatest `UInt64`. -/
def unsignedMaximum : UInt64 := 0xFFFFFFFFFFFFFFFF

theorem unsignedMaximum_toNat : unsignedMaximum.toNat = 2 ^ 64 - 1 := rfl

/-- `amount` is in units of which `rate` are a second, the result in units of which `factor` are. -/
def scale (maximum rate factor amount : UInt64) : Accounted (Option UInt64) := do
  let seconds := amount / rate
  let remainder := amount % rate
  let product ← mul remainder factor
  let fractional := product / rate
  let room ← sub maximum fractional
  if seconds > room / factor then pure none
  else do
    let whole ← mul seconds factor
    let sum ← add whole fractional
    pure (some sum)

/-- Rounding down the whole and the rest is rounding down the sum. -/
theorem mul_div_split (a f k : Nat) : a * f / k = a / k * f + a % k * f / k := by
  rcases Nat.eq_zero_or_pos k with rfl | hk
  · simp
  · have ha : a * f = k * (a / k * f) + a % k * f := by
      rw [← Nat.mul_assoc, ← Nat.add_mul, Nat.div_add_mod]
    rw [ha, Nat.mul_add_div hk]

theorem fraction_lt {a f k : Nat} (hk : 0 < k) (hf : 0 < f) : a % k * f / k < f := by
  rw [Nat.div_lt_iff_lt_mul hk, Nat.mul_comm f k]
  exact Nat.mul_lt_mul_of_pos_right (Nat.mod_lt _ hk) hf

/-- The result in numbers. -/
def scaled (maximum rate factor amount : Nat) : Option Nat :=
  if amount * factor / rate ≤ maximum then some (amount * factor / rate) else none

theorem scale_spec {maximum rate factor : UInt64} (amount : UInt64) (hrate : 0 < rate.toNat)
    (hfactor : 0 < factor.toNat) (hproduct : rate.toNat * factor.toNat ≤ 2 ^ 64)
    (hmaximum : factor.toNat ≤ maximum.toNat) :
    Yields (scale maximum rate factor amount) fun result => result.map UInt64.toNat =
      scaled maximum.toNat rate.toNat factor.toNat amount.toNat := by
  have hmod : (amount % rate).toNat = amount.toNat % rate.toNat := UInt64.toNat_mod ..
  have hsmall : amount.toNat % rate.toNat * factor.toNat < rate.toNat * factor.toNat :=
    Nat.mul_lt_mul_of_pos_right (Nat.mod_lt _ hrate) hfactor
  have hfraction := fraction_lt (a := amount.toNat) hrate hfactor
  refine .bind (.mul ?_) fun product hp => ?_
  · rw [hmod]
    omega
  have hfractional : (product / rate).toNat =
      amount.toNat % rate.toNat * factor.toNat / rate.toNat := by
    rw [UInt64.toNat_div, hp, hmod]
  refine .bind (.sub (by omega)) fun room hroom => ?_
  have hseconds : (amount / rate).toNat = amount.toNat / rate.toNat := UInt64.toNat_div ..
  -- the test asks whether the sum is above the limit
  have htest : amount / rate > room / factor ↔
      maximum.toNat < amount.toNat * factor.toNat / rate.toNat := by
    rw [gt_iff_lt, UInt64.lt_iff_toNat_lt, UInt64.toNat_div, hseconds,
      Nat.div_lt_iff_lt_mul hfactor, mul_div_split, hroom, hfractional]
    omega
  have hmax := maximum.toNat_lt
  unfold scaled
  split
  · rename_i h
    rw [htest] at h
    exact .pure (by rw [if_neg (Nat.not_le.mpr h)]; rfl)
  · rename_i h
    rw [htest, Nat.not_lt] at h
    have hsplit := mul_div_split amount.toNat factor.toNat rate.toNat
    refine .bind (.mul (by rw [hseconds]; omega)) fun whole hwhole => ?_
    refine .bind (.add (by rw [hwhole, hseconds]; omega)) fun sum hsum => .pure ?_
    rw [if_pos h, Option.map_some, hsum, hwhole, hseconds, hfractional, ← hsplit]

/-- The greatest `Int64`. -/
def signedMaximum : UInt64 := 0x7FFFFFFFFFFFFFFF

theorem signedMaximum_toNat : signedMaximum.toNat = 2 ^ 63 - 1 := rfl

/-- The result as a signed number, where it is one. -/
def scaleSigned (rate factor amount : UInt64) : Accounted (Option Int64) := do
  match ← scale signedMaximum rate factor amount with
  | some result => do
    let result ← convert UInt64.toInt64 result
    pure (some result)
  | none => pure none

theorem toInt_toInt64 {x : UInt64} (h : x.toNat ≤ 2 ^ 63 - 1) : x.toInt64.toInt = x.toNat := by
  have hx : x.toInt64.toBitVec.toNat = x.toNat := rfl
  rw [← Int64.toInt_toBitVec, BitVec.toInt_eq_toNat_of_lt (by omega), hx]

theorem scaleSigned_spec {rate factor : UInt64} (amount : UInt64) (hrate : 0 < rate.toNat)
    (hfactor : 0 < factor.toNat) (hproduct : rate.toNat * factor.toNat ≤ 2 ^ 64)
    (hmaximum : factor.toNat ≤ 2 ^ 63 - 1) :
    Yields (scaleSigned rate factor amount) fun result => result.map Int64.toInt =
      (scaled (2 ^ 63 - 1) rate.toNat factor.toNat amount.toNat).map Nat.cast := by
  refine .bind (scale_spec amount hrate hfactor hproduct hmaximum) fun result hresult => ?_
  rw [signedMaximum_toNat] at hresult
  rw [← hresult]
  cases result with
  | none => exact .pure rfl
  | some result =>
    have hle : result.toNat ≤ 2 ^ 63 - 1 := by
      unfold scaled at hresult
      split at hresult
      · rename_i h
        rw [Option.map_some, Option.some.injEq] at hresult
        rwa [hresult]
      · cases hresult
    refine .bind (.convert (toInt_toInt64 hle)) fun signed hsigned => .pure ?_
    exact congrArg some hsigned

end SimPLCity.UnitScaling
