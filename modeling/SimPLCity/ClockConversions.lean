import SimPLCity.TickCounter
import SimPLCity.HighResolutionTime

/-! The three conversions of the clocks: exact where the result fits, and in the order of their
arguments. -/

namespace SimPLCity.ClockConversions
open WordArithmetic UnitScaling TickCounter HighResolutionTime
open SleepFor (nanosecondsPerSecond ticksPerSecond nanosecondsPerSecond_toNat ticksPerSecond_toNat)

section
variable {maximum rate factor : Nat}

theorem scaled_le {a b y : Nat} (h : a ≤ b) (hb : scaled maximum rate factor b = some y) :
    ∃ x, scaled maximum rate factor a = some x ∧ x ≤ y := by
  have hle : a * factor / rate ≤ b * factor / rate :=
    Nat.div_le_div_right (Nat.mul_le_mul_right factor h)
  unfold scaled at hb ⊢
  split at hb
  · rename_i hfits
    obtain rfl := Option.some.inj hb
    exact ⟨_, if_pos (Nat.le_trans hle hfits), hle⟩
  · cases hb

end

section
variable {frequency : UInt64}

theorem threadTicksToCounterTicks_spec (ticks : UInt64)
    (h : 1 ≤ frequency.toNat ∧ frequency.toNat ≤ 10 ^ 9) :
    Yields (threadTicksToCounterTicks ticks frequency) fun result => result.map UInt64.toNat =
      scaled (2 ^ 64 - 1) 1000 frequency.toNat ticks.toNat := by
  refine scale_spec ticks (by decide) h.1 ?_ ?_
  · rw [ticksPerSecond_toNat]
    omega
  · rw [unsignedMaximum_toNat]
    omega

theorem counterTicksToNanoseconds_spec (ticks : UInt64)
    (h : 1 ≤ frequency.toNat ∧ frequency.toNat ≤ 10 ^ 9) :
    Yields (counterTicksToNanoseconds ticks frequency) fun result => result.map Int64.toInt =
      (scaled (2 ^ 63 - 1) frequency.toNat (10 ^ 9) ticks.toNat).map Nat.cast := by
  refine scaleSigned_spec ticks h.1 (by decide) ?_ (by decide)
  rw [nanosecondsPerSecond_toNat]
  omega

end

/-- The result that a conversion has in numbers, exactly where it is below `limit`. -/
def below (limit result : Nat) : Option Nat := if result < limit then some result else none

theorem scaled_below {maximum rate factor amount : Nat} :
    scaled maximum rate factor amount = below (maximum + 1) (amount * factor / rate) := by
  simp only [scaled, below, Nat.lt_succ_iff]

/-- Every operation is exact, no divisor is zero, and the results are the rounded quotients where
they fit. -/
structure Exact (frequency ticks : UInt64) : Prop where
  divisors : ticksPerSecond ≠ 0 ∧ nanosecondsPerSecond ≠ 0 ∧ frequency ≠ 0
  nanoseconds : Yields (ticksToNanoseconds ticks) fun result =>
    result.toInt = (min (ticks.toNat * 10 ^ 9 / 1000) (2 ^ 63 - 1) : Nat)
  counterTicks : Yields (threadTicksToCounterTicks ticks frequency) fun result =>
    result.map UInt64.toNat = below (2 ^ 64) (ticks.toNat * frequency.toNat / 1000)
  counterNanoseconds : Yields (counterTicksToNanoseconds ticks frequency) fun result =>
    result.map Int64.toInt =
      (below (2 ^ 63) (ticks.toNat * 10 ^ 9 / frequency.toNat)).map Nat.cast

/-- Fewer ticks are converted to no more, where more ticks can be converted. -/
structure Ordered (frequency a b : UInt64) : Prop where
  nanoseconds : (ticksToNanoseconds a).value ≤ (ticksToNanoseconds b).value
  counterTicks : ∀ y, (threadTicksToCounterTicks b frequency).value = some y →
    ∃ x, (threadTicksToCounterTicks a frequency).value = some x ∧ x ≤ y
  counterNanoseconds : ∀ y, (counterTicksToNanoseconds b frequency).value = some y →
    ∃ x, (counterTicksToNanoseconds a frequency).value = some x ∧ x ≤ y

theorem exact_conversions {frequency : UInt64} (ticks : UInt64)
    (h : 1 ≤ frequency.toNat ∧ frequency.toNat ≤ 10 ^ 9) : Exact frequency ticks where
  divisors := by
    refine ⟨by decide, by decide, ?_⟩
    rintro rfl
    exact absurd h.1 (by decide)
  nanoseconds := by
    have hmillion : ticks.toNat * 10 ^ 9 / 1000 = ticks.toNat * 10 ^ 6 := by omega
    rw [hmillion]
    exact ticksToNanoseconds_spec ticks
  counterTicks := by
    have hspec := threadTicksToCounterTicks_spec ticks h
    rwa [scaled_below] at hspec
  counterNanoseconds := by
    have hspec := counterTicksToNanoseconds_spec ticks h
    rwa [scaled_below] at hspec

theorem ordered_conversions {frequency a b : UInt64}
    (h : 1 ≤ frequency.toNat ∧ frequency.toNat ≤ 10 ^ 9) (hab : a ≤ b) :
    Ordered frequency a b where
  nanoseconds := ticksToNanoseconds_mono hab
  counterTicks := by
    intro y hy
    have hb := (threadTicksToCounterTicks_spec b h).1
    rw [hy] at hb
    obtain ⟨x, hx, hle⟩ := scaled_le (UInt64.le_iff_toNat_le.mp hab) hb.symm
    have ha := (threadTicksToCounterTicks_spec a h).1
    rw [hx] at ha
    obtain ⟨result, hresult, rfl⟩ := Option.map_eq_some_iff.mp ha
    exact ⟨result, hresult, UInt64.le_iff_toNat_le.mpr hle⟩
  counterNanoseconds := by
    intro y hy
    have hb := (counterTicksToNanoseconds_spec b h).1
    rw [hy] at hb
    obtain ⟨n, hn, hny⟩ := Option.map_eq_some_iff.mp hb.symm
    obtain ⟨x, hx, hle⟩ := scaled_le (UInt64.le_iff_toNat_le.mp hab) hn
    have ha := (counterTicksToNanoseconds_spec a h).1
    rw [hx, Option.map_some] at ha
    obtain ⟨result, hresult, hvalue⟩ := Option.map_eq_some_iff.mp ha
    refine ⟨result, hresult, ?_⟩
    rw [Int64.le_iff_toInt_le, hvalue, ← hny]
    exact Int.ofNat_le.mpr hle

theorem conversions_exact (frequency : UInt64) (h : 1 ≤ frequency.toNat ∧ frequency.toNat ≤ 10 ^ 9) :
    (∀ ticks, Exact frequency ticks) ∧ ∀ a b, a ≤ b → Ordered frequency a b :=
  ⟨fun ticks => exact_conversions ticks h, fun _ _ hab => ordered_conversions h hab⟩

theorem conversions_exact_megahertz :
    (∀ ticks, Exact 1000000 ticks) ∧ ∀ a b, a ≤ b → Ordered 1000000 a b :=
  conversions_exact 1000000 (by decide)

end SimPLCity.ClockConversions
