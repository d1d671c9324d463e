import SimPLCity.CivilCalendar
import SimPLCity.UnitScaling

/-! Days from dates, in words of 32 bits. -/

namespace SimPLCity.CivilDates
open WordArithmetic CivilCalendar

def isLeapYear (year : Int32) : Bool := year % 4 == 0 && (year % 100 != 0 || year % 400 == 0)

def daysInMonth (year : Int32) (month : UInt32) : UInt32 :=
  if month = 2 then if isLeapYear year then 29 else 28
  else if month = 4 ∨ month = 6 ∨ month = 9 ∨ month = 11 then 30
  else 31

/-- The quotient rounds towards zero, so that years before the era 0 are moved. -/
def eraNumerator (year : Int32) : Accounted Int32 :=
  if year ≥ 0 then pure year else sub year 399

def eraOf (year : Int32) : Accounted Int32 := do
  let numerator ← eraNumerator year
  div numerator 400

def dayOfYear (month day : UInt32) : Accounted UInt32 := do
  let signedMonth ← convert UInt32.toInt32 month
  let adjustedMonth ← add signedMonth (if month > 2 then -3 else 9)
  let product ← mul 153 adjustedMonth
  let numerator ← add product 2
  let quotient ← div numerator 5
  let days ← convert Int32.toUInt32 quotient
  let sum ← add days day
  sub sum 1

def dayOfEra (yearOfEra dayOfYear : UInt32) : Accounted UInt32 := do
  let commonDays ← mul yearOfEra 365
  let leapDays ← div yearOfEra 4
  let julianDays ← add commonDays leapDays
  let centuries ← div yearOfEra 100
  let days ← sub julianDays centuries
  add days dayOfYear

/-- Days since 1970-01-01. -/
def daysFromCivil (year : Int32) (month day : UInt32) : Accounted Int64 := do
  let year ← sub year (if month ≤ 2 then 1 else 0)
  let era ← eraOf year
  let eraYears ← mul era 400
  let rest ← sub year eraYears
  let yearOfEra ← convert Int32.toUInt32 rest
  let dayOfYear ← dayOfYear month day
  let dayOfEra ← dayOfEra yearOfEra dayOfYear
  let wideEra ← convert Int32.toInt64 era
  let eraDays ← mul wideEra 146097
  let wideDay ← convert (fun x : UInt32 => x.toUInt64.toInt64) dayOfEra
  let days ← add eraDays wideDay
  sub days 719468

structure CivilDate where
  year : Int32
  month : UInt32
  day : UInt32
deriving DecidableEq, Repr

namespace CivilDate

def days (date : CivilDate) : Accounted Int64 := daysFromCivil date.year date.month date.day

/-- The computation stays within its words. -/
def Fits (date : CivilDate) : Prop := date.days.exact = true

instance (date : CivilDate) : Decidable date.Fits := inferInstanceAs (Decidable (_ = true))

structure Valid (date : CivilDate) : Prop where
  month : 1 ≤ date.month ∧ date.month ≤ 12
  day : 1 ≤ date.day ∧ date.day ≤ daysInMonth date.year date.month

/-- The following date. -/
def next (date : CivilDate) : Accounted CivilDate :=
  if date.day < daysInMonth date.year date.month then pure { date with day := date.day + 1 }
  else if date.month < 12 then pure ⟨date.year, date.month + 1, 1⟩
  else do
    let year ← add date.year 1
    pure ⟨year, 1, 1⟩

/-- The calendar order. -/
def Before (a b : CivilDate) : Prop :=
  a.year < b.year ∨ a.year = b.year ∧
    (a.month < b.month ∨ a.month = b.month ∧ a.day < b.day)

instance (a b : CivilDate) : Decidable (a.Before b) := inferInstanceAs (Decidable (_ ∨ _))

def toDate (date : CivilDate) : Date := ⟨date.year.toInt, date.month.toNat, date.day.toNat⟩

end CivilDate

theorem isLeapYear_iff (year : Int32) : isLeapYear year = true ↔ Leap year.toInt := by
  have hmod : ∀ k : Int32, 0 < k.toInt → (year % k = 0 ↔ year.toInt % k.toInt = 0) := by
    intro k hk
    rw [← Int32.toInt_inj, Int32.toInt_mod, Int32.toInt_zero, ← Int.dvd_iff_tmod_eq_zero,
      Int.dvd_iff_emod_eq_zero]
  have h4 := hmod 4 (by decide)
  have h100 := hmod 100 (by decide)
  have h400 := hmod 400 (by decide)
  unfold isLeapYear Leap
  simp only [Bool.and_eq_true, Bool.or_eq_true, beq_iff_eq, bne_iff_ne, ne_eq]
  rw [h4, h100, h400]
  rfl

theorem daysInMonth_eq (year : Int32) (month : UInt32) :
    ((daysInMonth year month).toNat : Int) = monthLength year.toInt month.toNat := by
  have hmonth : ∀ k : UInt32, month = k ↔ (month.toNat : Int) = k.toNat := by
    intro k
    rw [← UInt32.toNat_inj, Int.ofNat_inj]
  have h2 : month = 2 ↔ (month.toNat : Int) = 2 := hmonth 2
  have h4 : month = 4 ↔ (month.toNat : Int) = 4 := hmonth 4
  have h6 : month = 6 ↔ (month.toNat : Int) = 6 := hmonth 6
  have h9 : month = 9 ↔ (month.toNat : Int) = 9 := hmonth 9
  have h11 : month = 11 ↔ (month.toNat : Int) = 11 := hmonth 11
  unfold daysInMonth monthLength
  simp only [h2, h4, h6, h9, h11, isLeapYear_iff]
  split
  · split <;> rfl
  · split <;> rfl

theorem toInt_toInt32 {x : UInt32} (h : x.toNat < 2 ^ 31) : x.toInt32.toInt = x.toNat := by
  have hx : x.toInt32.toBitVec.toNat = x.toNat := rfl
  rw [← Int32.toInt_toBitVec, BitVec.toInt_eq_toNat_of_lt (by omega), hx]

theorem toNat_toUInt32 {x : Int32} (h : 0 ≤ x.toInt) : (x.toUInt32.toNat : Int) = x.toInt := by
  have hx : 0 ≤ x := by rwa [Int32.le_iff_toInt_le, Int32.toInt_zero]
  rw [Int32.toNat_toUInt32_of_le hx, Int32.cast_toNatClampNeg x hx]

theorem tdiv_of_neg {a : Int} (h : a < 0) : (a - 399).tdiv 400 = a / 400 := by
  have hopposite : a - 399 = -(399 - a) := by omega
  rw [hopposite, Int.neg_tdiv, Int.tdiv_eq_ediv_of_nonneg (by omega)]
  omega

theorem eraOf_spec {year : Int32} (h : -2 ^ 31 + 399 ≤ year.toInt) :
    Yields (eraOf year) fun era => era.toInt = year.toInt / 400 := by
  have hyear := year.toInt_lt
  have hsign : year ≥ 0 ↔ 0 ≤ year.toInt := Int32.le_iff_toInt_le
  have h399 : (399 : Int32).toInt = 399 := rfl
  have h400 : (400 : Int32).toInt = 400 := rfl
  have hnumerator : Yields (eraNumerator year) fun numerator =>
      numerator.toInt.tdiv 400 = year.toInt / 400 := by
    unfold eraNumerator
    split
    · rename_i hnonnegative
      exact .pure (Int.tdiv_eq_ediv_of_nonneg (hsign.mp hnonnegative))
    · rename_i hnegative
      rw [hsign, Int.not_le] at hnegative
      refine (Yields.signedSub32 (by rw [h399]; omega) (by rw [h399]; omega)).mono
        fun numerator hnumerator => ?_
      rw [hnumerator, h399]
      exact tdiv_of_neg hnegative
  refine .bind hnumerator fun numerator hnumerator => ?_
  refine (Yields.signedDiv32 (by decide)).mono fun era hera => ?_
  rw [hera, h400, hnumerator]

theorem dayOfYear_spec {month day : UInt32} (hmonth : 1 ≤ month.toNat ∧ month.toNat ≤ 12)
    (hday : 1 ≤ day.toNat ∧ day.toNat ≤ 31) :
    Yields (dayOfYear month day) fun days => (days.toNat : Int) =
      (153 * (if (month.toNat : Int) ≤ 2 then (month.toNat : Int) + 9 else month.toNat - 3) + 2) / 5 +
        day.toNat - 1 := by
  have h153 : (153 : Int32).toInt = 153 := rfl
  have h2 : (2 : Int32).toInt = 2 := rfl
  have h5 : (5 : Int32).toInt = 5 := rfl
  have hmarch : (if month > 2 then -3 else 9 : Int32).toInt =
      if (month.toNat : Int) ≤ 2 then 9 else -3 := by
    have hlt : month > 2 ↔ 2 < month.toNat := UInt32.lt_iff_toNat_lt
    by_cases h : 2 < month.toNat
    · rw [if_pos (hlt.mpr h), if_neg (by omega)]
      rfl
    · rw [if_neg (mt hlt.mp h), if_pos (by omega)]
      rfl
  refine .bind (.convert (toInt_toInt32 (by omega))) fun signedMonth hsigned => ?_
  rw [toInt_int32, toInt_uInt32] at hsigned
  refine .bind (.signedAdd32 ?_ ?_) fun adjustedMonth hadjusted => ?_
  · rw [hmarch]
    split <;> omega
  · rw [hmarch]
    split <;> omega
  have hrange : adjustedMonth.toInt = (if (month.toNat : Int) ≤ 2 then (month.toNat : Int) + 9
      else month.toNat - 3) ∧ 0 ≤ adjustedMonth.toInt ∧ adjustedMonth.toInt ≤ 11 := by
    rw [hadjusted, hmarch, hsigned]
    split <;> omega
  obtain ⟨hsame, hlow, hhigh⟩ := hrange
  rw [← hsame]
  refine .bind (.signedMul32 (by rw [h153]; omega) (by rw [h153]; omega)) fun product hproduct => ?_
  rw [h153] at hproduct
  refine .bind (.signedAdd32 (by omega) (by omega)) fun numerator hnumerator => ?_
  refine .bind (.signedDiv32 (by decide)) fun quotient hquotient => ?_
  rw [h5, Int.tdiv_eq_ediv_of_nonneg (by omega)] at hquotient
  refine .bind (.convert (toNat_toUInt32 (by omega))) fun days hdays => ?_
  rw [toInt_int32, toInt_uInt32] at hdays
  refine .bind (.add32 (by omega)) fun sum hsum => ?_
  have hone : (1 : UInt32).toNat = 1 := rfl
  refine (Yields.sub32 (by omega)).mono fun result hresult => ?_
  omega

theorem dayOfEra_spec {yearOfEra days : UInt32} (hyear : yearOfEra.toNat < 400)
    (hdays : days.toNat ≤ 400) :
    Yields (dayOfEra yearOfEra days) fun day => day.toNat =
      yearOfEra.toNat * 365 + yearOfEra.toNat / 4 - yearOfEra.toNat / 100 + days.toNat := by
  have h365 : (365 : UInt32).toNat = 365 := rfl
  have h4 : (4 : UInt32).toNat = 4 := rfl
  have h100 : (100 : UInt32).toNat = 100 := rfl
  refine .bind (.mul32 (by rw [h365]; omega)) fun commonDays hcommon => ?_
  rw [h365] at hcommon
  refine .bind (.div32 (by decide)) fun leapDays hleap => ?_
  rw [h4] at hleap
  refine .bind (.add32 (by omega)) fun julianDays hjulian => ?_
  refine .bind (.div32 (by decide)) fun centuries hcenturies => ?_
  rw [h100] at hcenturies
  refine .bind (.sub32 (by omega)) fun difference hdifference => ?_
  exact (Yields.add32 (by omega)).mono fun day hday => by omega

namespace CivilDate

variable {date : CivilDate}

theorem valid_iff : date.Valid ↔ date.toDate.Valid := by
  have hlength := daysInMonth_eq date.year date.month
  have hone : (1 : UInt32).toNat = 1 := rfl
  have htwelve : (12 : UInt32).toNat = 12 := rfl
  constructor
  · rintro ⟨⟨hlow, hhigh⟩, hfirst, hlast⟩
    rw [UInt32.le_iff_toNat_le] at hlow hhigh hfirst hlast
    exact ⟨by dsimp only [toDate]; omega, by dsimp only [toDate]; omega⟩
  · rintro ⟨hmonth, hday⟩
    dsimp only [toDate] at hmonth hday
    refine ⟨⟨?_, ?_⟩, ?_, ?_⟩
    · rw [UInt32.le_iff_toNat_le]
      omega
    · rw [UInt32.le_iff_toNat_le]
      omega
    · rw [UInt32.le_iff_toNat_le]
      omega
    · rw [UInt32.le_iff_toNat_le]
      omega

theorem before_iff {a b : CivilDate} : a.Before b ↔ a.toDate.Before b.toDate := by
  unfold Before Date.Before toDate
  rw [Int32.lt_iff_toInt_lt, UInt32.lt_iff_toNat_lt, UInt32.lt_iff_toNat_lt,
    ← Int32.toInt_inj, ← UInt32.toNat_inj, ← Int.ofNat_lt, ← Int.ofNat_lt, ← Int.ofNat_inj]

/-- The year that begins in March is the first that is computed. -/
theorem marchYear_eq (date : CivilDate) :
    date.toDate.marchYear = date.year.toInt - (if date.month ≤ 2 then 1 else 0 : Int32).toInt := by
  have hle : date.month ≤ 2 ↔ date.toDate.month ≤ 2 := by
    rw [UInt32.le_iff_toNat_le]
    exact Int.ofNat_le.symm
  unfold Date.marchYear
  by_cases h : date.toDate.month ≤ 2
  · rw [if_pos h, if_pos (hle.mpr h)]
    rfl
  · rw [if_neg h, if_neg (mt hle.mp h)]
    exact (Int.sub_zero _).symm

theorem days_spec (h : date.Valid) (hyear : -2 ^ 31 + 399 ≤ date.toDate.marchYear) :
    Yields date.days fun days => days.toInt = date.toDate.dayNumber := by
  obtain ⟨hmonth, hday⟩ := valid_iff.mp h
  have hlength := monthLength_le date.toDate.year date.toDate.month
  have hmarch := marchYear_eq date
  have hbelow : date.toDate.marchYear < 2 ^ 31 := by
    have hlt := date.year.toInt_lt
    rw [hmarch]
    split
    · change date.year.toInt - 1 < 2 ^ 31
      omega
    · change date.year.toInt - 0 < 2 ^ 31
      omega
  have h400 : (400 : Int32).toInt = 400 := rfl
  refine .bind (.signedSub32 (by omega) (by omega)) fun year hmarchYear => ?_
  rw [← hmarch] at hmarchYear
  refine .bind (eraOf_spec (by omega)) fun era hera => ?_
  refine .bind (.signedMul32 (by rw [h400]; omega) (by rw [h400]; omega)) fun eraYears heraYears => ?_
  rw [h400] at heraYears
  refine .bind (.signedSub32 (by omega) (by omega)) fun rest hrest => ?_
  refine .bind (.convert (toNat_toUInt32 (by omega))) fun yearOfEra hyearOfEra => ?_
  rw [toInt_int32, toInt_uInt32] at hyearOfEra
  refine .bind (dayOfYear_spec (by dsimp only [toDate] at hmonth; omega)
    (by dsimp only [toDate] at hday hlength; omega)) fun dayOfYear hdayOfYear => ?_
  have hmarchMonth : 0 ≤ date.toDate.marchMonth ∧ date.toDate.marchMonth ≤ 11 := by
    unfold Date.marchMonth
    split <;> omega
  change _ = (153 * date.toDate.marchMonth + 2) / 5 + date.toDate.day - 1 at hdayOfYear
  refine .bind (dayOfEra_spec (by omega) (by omega)) fun dayOfEra hdayOfEra => ?_
  refine .bind (.convert (Int32.toInt_toInt64 era)) fun wideEra hwideEra => ?_
  rw [toInt_int32, toInt_int64] at hwideEra
  have h146097 : (146097 : Int64).toInt = 146097 := rfl
  have h719468 : (719468 : Int64).toInt = 719468 := rfl
  refine .bind (.signedMul (by rw [h146097]; omega) (by rw [h146097]; omega)) fun eraDays heraDays => ?_
  rw [h146097] at heraDays
  have hwide : dayOfEra.toUInt64.toInt64.toInt = dayOfEra.toNat :=
    UnitScaling.toInt_toInt64 (by rw [UInt32.toNat_toUInt64]; omega)
  refine .bind (.convert hwide) fun wideDay hwideDay => ?_
  rw [toInt_int64, toInt_uInt32] at hwideDay
  refine .bind (.signedAdd (by omega) (by omega)) fun days hdays => ?_
  refine (Yields.signedSub (by omega) (by omega)).mono fun result hresult => ?_
  rw [hresult, h719468, hdays, heraDays, hwideDay, hdayOfEra]
  unfold Date.dayNumber
  omega

theorem marchYear_of_fits (h : date.Fits) : -2 ^ 31 + 399 ≤ date.toDate.marchYear := by
  unfold Fits days daysFromCivil at h
  rw [bind_exact, Bool.and_eq_true, bind_exact, Bool.and_eq_true] at h
  obtain ⟨hfirst, hera, -⟩ := h
  have hyear := of_decide_eq_true hfirst
  rw [toInt_int32, toInt_int32, toInt_int32, ← marchYear_eq] at hyear
  rw [sub_value] at hera
  generalize date.year - (if date.month ≤ 2 then 1 else 0) = year at hera hyear
  rw [← hyear]
  have hsign : year ≥ 0 ↔ 0 ≤ year.toInt := Int32.le_iff_toInt_le
  unfold eraOf at hera
  rw [bind_exact, Bool.and_eq_true] at hera
  have hnumerator := hera.1
  unfold eraNumerator at hnumerator
  by_cases hpositive : year ≥ 0
  · rw [hsign] at hpositive
    omega
  · rw [if_neg hpositive] at hnumerator
    have hmoved := of_decide_eq_true hnumerator
    have h399 : (399 : Int32).toInt = 399 := rfl
    have hlow := (year - 399).le_toInt
    rw [toInt_int32, toInt_int32, toInt_int32, h399] at hmoved
    omega

theorem days_of_fits (h : date.Valid) (hfits : date.Fits) :
    date.days.value.toInt = date.toDate.dayNumber :=
  (days_spec h (marchYear_of_fits hfits)).1

theorem next_toDate (h : date.Valid) (hexact : date.next.exact = true) :
    date.next.value.toDate = date.toDate.next := by
  have hle := monthLength_le date.toDate.year date.toDate.month
  obtain ⟨hmonth, hday⟩ := valid_iff.mp h
  have hone : (1 : UInt32).toNat = 1 := rfl
  have hsame : date.day < daysInMonth date.year date.month ↔
      date.toDate.day < monthLength date.toDate.year date.toDate.month := by
    have hlength := daysInMonth_eq date.year date.month
    rw [UInt32.lt_iff_toNat_lt, ← Int.ofNat_lt, hlength]
    rfl
  have hyear : date.month < 12 ↔ date.toDate.month < 12 := by
    rw [UInt32.lt_iff_toNat_lt, ← Int.ofNat_lt]
    rfl
  dsimp only [toDate] at hle hmonth hday
  unfold next at hexact ⊢
  unfold Date.next
  by_cases hcase : date.day < daysInMonth date.year date.month
  · rw [if_pos hcase, if_pos (hsame.mp hcase), pure_value]
    have hnext : (date.day + 1).toNat = date.day.toNat + 1 := by
      rw [UInt32.toNat_add, hone, Nat.mod_eq_of_lt (by omega)]
    unfold toDate
    rw [hnext]
    rfl
  · rw [if_neg hcase, if_neg (mt hsame.mpr hcase)]
    rw [if_neg hcase] at hexact
    by_cases hcase' : date.month < 12
    · rw [if_pos hcase', if_pos (hyear.mp hcase'), pure_value]
      have hnext : (date.month + 1).toNat = date.month.toNat + 1 := by
        rw [UInt32.toNat_add, hone, Nat.mod_eq_of_lt (by omega)]
      unfold toDate
      rw [hnext]
      rfl
    · rw [if_neg hcase', if_neg (mt hyear.mpr hcase')]
      rw [if_neg hcase', bind_exact, Bool.and_eq_true] at hexact
      have hadded : (date.year + 1).toInt = date.year.toInt + 1 := of_decide_eq_true hexact.1
      rw [bind_value, add_value, pure_value]
      unfold toDate
      rw [hadded]
      rfl

theorem valid_next (h : date.Valid) (hexact : date.next.exact = true) :
    date.next.value.Valid := by
  rw [valid_iff, next_toDate h hexact]
  exact CivilCalendar.valid_next (valid_iff.mp h)

theorem fits_next (h : date.Valid) (hfits : date.Fits) (hexact : date.next.exact = true) :
    date.next.value.Fits := by
  have hyear := marchYear_of_fits hfits
  refine (days_spec (valid_next h hexact) ?_).2
  rw [next_toDate h hexact]
  exact hyear.trans (marchYear_next (valid_iff.mp h))

/-- `After n a b` says that `b` is `n` dates after `a`. -/
inductive After : Nat → CivilDate → CivilDate → Prop
  | refl (date : CivilDate) : After 0 date date
  | next {n : Nat} {a b : CivilDate} (h : After n a b) (hexact : b.next.exact = true) :
    After (n + 1) a b.next.value

theorem days_next (h : date.Valid) (hfits : date.Fits) (hexact : date.next.exact = true) :
    date.next.value.days.value.toInt = date.days.value.toInt + 1 := by
  rw [days_of_fits h hfits, days_of_fits (valid_next h hexact) (fits_next h hfits hexact),
    next_toDate h hexact, dayNumber_next (valid_iff.mp h)]

theorem days_after {n : Nat} {a b : CivilDate} (hafter : After n a b) (h : a.Valid)
    (hfits : a.Fits) :
    b.Valid ∧ b.Fits ∧ b.days.value.toInt = a.days.value.toInt + n := by
  induction hafter with
  | refl date => exact ⟨h, hfits, (Int.add_zero _).symm⟩
  | next hafter hexact ih =>
    obtain ⟨hvalid, hfits', hdays⟩ := ih h hfits
    refine ⟨valid_next hvalid hexact, fits_next hvalid hfits' hexact, ?_⟩
    rw [days_next hvalid hfits' hexact, hdays]
    omega

theorem days_lt {a b : CivilDate} (ha : a.Valid) (hb : b.Valid) (hfits : a.Fits)
    (hfits' : b.Fits) (h : a.Before b) : a.days.value.toInt < b.days.value.toInt := by
  rw [days_of_fits ha hfits, days_of_fits hb hfits']
  exact dayNumber_lt (valid_iff.mp ha) (valid_iff.mp hb) (before_iff.mp h)

end CivilDate

inductive HalError
  | error
  | busy
  | timeout
deriving DecidableEq, Repr

/-- `HAL_StatusTypeDef`. -/
inductive HalStatus
  | ok
  | error
  | busy
  | timeout
deriving DecidableEq, Repr

structure RtcTime where
  hours : UInt8
  minutes : UInt8
  seconds : UInt8
  subSeconds : UInt32
  secondFraction : UInt32
deriving DecidableEq, Repr

structure RtcDate where
  month : UInt8
  date : UInt8
  year : UInt8
deriving DecidableEq, Repr

/-- What `HAL_RTC_GetTime` and `HAL_RTC_GetDate` give. -/
structure Snapshot where
  timeStatus : HalStatus
  time : RtcTime
  dateStatus : HalStatus
  date : RtcDate
deriving DecidableEq, Repr

structure Timestamp where
  secondsSinceEpoch : Int64
  nanoseconds : UInt32
deriving DecidableEq, Repr

abbrev rtcEpochYear : Int32 := 2000

def widen (x : UInt8) : Int64 := x.toUInt64.toInt64

namespace Snapshot

def civilDate (s : Snapshot) : CivilDate :=
  ⟨rtcEpochYear + s.date.year.toUInt32.toInt32, s.date.month.toUInt32, s.date.date.toUInt32⟩

def secondsSinceEpoch (s : Snapshot) : Accounted Int64 := do
  let days ← s.civilDate.days
  let daySeconds ← mul days 86400
  let hourSeconds ← mul (widen s.time.hours) 3600
  let hours ← add daySeconds hourSeconds
  let minuteSeconds ← mul (widen s.time.minutes) 60
  let minutes ← add hours minuteSeconds
  add minutes (widen s.time.seconds)

/-- The counter of the fraction counts down. -/
def nanoseconds (s : Snapshot) : UInt64 :=
  (s.time.secondFraction - s.time.subSeconds).toUInt64 * 1000000000 /
    (s.time.secondFraction.toUInt64 + 1)

def getTime (s : Snapshot) : Except HalError Timestamp :=
  if s.timeStatus ≠ .ok ∨ s.dateStatus ≠ .ok then .error .error
  else if s.civilDate.month < 1 ∨ s.civilDate.month > 12 ∨ s.civilDate.day < 1 ∨
      s.civilDate.day > daysInMonth s.civilDate.year s.civilDate.month ∨ s.time.hours ≥ 24 ∨
      s.time.minutes ≥ 60 ∨ s.time.seconds ≥ 60 ∨
      s.time.subSeconds > s.time.secondFraction then .error .error
  else .ok ⟨s.secondsSinceEpoch.value, s.nanoseconds.toUInt32⟩

/-- A reading of the calendar that is valid. -/
structure Valid (s : Snapshot) : Prop where
  timeStatus : s.timeStatus = .ok
  dateStatus : s.dateStatus = .ok
  date : s.civilDate.Valid
  hours : s.time.hours < 24
  minutes : s.time.minutes < 60
  seconds : s.time.seconds < 60
  fraction : s.time.subSeconds ≤ s.time.secondFraction

def Earlier (a b : Snapshot) : Prop :=
  a.civilDate.Before b.civilDate ∨ a.civilDate = b.civilDate ∧
    (a.time.hours < b.time.hours ∨ a.time.hours = b.time.hours ∧
      (a.time.minutes < b.time.minutes ∨ a.time.minutes = b.time.minutes ∧
        a.time.seconds < b.time.seconds))

theorem widen_toInt (x : UInt8) : (widen x).toInt = x.toNat :=
  UnitScaling.toInt_toInt64 (x := x.toUInt64) (by
    have hx := x.toNat_lt
    rw [UInt8.toNat_toUInt64]
    omega)

variable {s : Snapshot}

theorem year_toInt (s : Snapshot) : s.civilDate.year.toInt = 2000 + s.date.year.toNat := by
  have hyear := s.date.year.toNat_lt
  have h2000 : rtcEpochYear.toInt = 2000 := rfl
  have hwide : s.date.year.toUInt32.toInt32.toInt = s.date.year.toNat :=
    toInt_toInt32 (x := s.date.year.toUInt32) (by rw [UInt8.toNat_toUInt32]; omega)
  have hsum : (rtcEpochYear + s.date.year.toUInt32.toInt32).toInt =
      rtcEpochYear.toInt + s.date.year.toUInt32.toInt32.toInt :=
    (Yields.signedAdd32 (by omega) (by omega)).1
  exact hsum.trans (by rw [h2000, hwide])

theorem marchYear_ge (s : Snapshot) : -2 ^ 31 + 399 ≤ s.civilDate.toDate.marchYear := by
  have hyear : s.civilDate.toDate.year = 2000 + s.date.year.toNat := s.year_toInt
  unfold Date.marchYear
  split <;> omega

theorem secondsSinceEpoch_spec (h : s.Valid) :
    Yields s.secondsSinceEpoch fun seconds => seconds.toInt =
      s.civilDate.days.value.toInt * 86400 + s.time.hours.toNat * 3600 +
        s.time.minutes.toNat * 60 + s.time.seconds.toNat := by
  have hspec := CivilDate.days_spec h.date s.marchYear_ge
  have hhours := s.time.hours.toNat_lt
  have hminutes := s.time.minutes.toNat_lt
  have hseconds := s.time.seconds.toNat_lt
  have hbounds : -1000000 ≤ s.civilDate.days.value.toInt ∧
      s.civilDate.days.value.toInt ≤ 1000000 := by
    have hyear : s.civilDate.toDate.year = 2000 + s.date.year.toNat := s.year_toInt
    have hlt := s.date.year.toNat_lt
    obtain ⟨hmonth, hday⟩ := CivilDate.valid_iff.mp h.date
    have hlength := monthLength_le s.civilDate.toDate.year s.civilDate.toDate.month
    rw [hspec.1]
    unfold Date.dayNumber Date.marchYear Date.marchMonth
    split <;> omega
  have h86400 : (86400 : Int64).toInt = 86400 := rfl
  have h3600 : (3600 : Int64).toInt = 3600 := rfl
  have h60 : (60 : Int64).toInt = 60 := rfl
  refine .bind ⟨rfl, hspec.2⟩ fun days hdays => ?_
  rw [hdays] at hbounds ⊢
  refine .bind (.signedMul (by rw [h86400]; omega) (by rw [h86400]; omega)) fun daySeconds hday => ?_
  refine .bind (.signedMul (by rw [widen_toInt, h3600]; omega) (by rw [widen_toInt, h3600]; omega))
    fun hourSeconds hhour => ?_
  rw [h86400] at hday
  rw [widen_toInt, h3600] at hhour
  refine .bind (.signedAdd (by omega) (by omega)) fun hours hhoursSum => ?_
  refine .bind (.signedMul (by rw [widen_toInt, h60]; omega) (by rw [widen_toInt, h60]; omega))
    fun minuteSeconds hminute => ?_
  rw [widen_toInt, h60] at hminute
  refine .bind (.signedAdd (by omega) (by omega)) fun minutes hminutesSum => ?_
  have hwidened := widen_toInt s.time.seconds
  refine (Yields.signedAdd (by omega) (by omega)).mono fun result hresult => ?_
  rw [hresult, hminutesSum, hhoursSum, hday, hhour, hminute, hwidened]

theorem getTime_ok_iff {timestamp : Timestamp} :
    s.getTime = .ok timestamp ↔
      s.Valid ∧ timestamp = ⟨s.secondsSinceEpoch.value, s.nanoseconds.toUInt32⟩ := by
  unfold getTime
  split
  · rename_i hstatus
    refine ⟨nofun, fun h => ?_⟩
    exact absurd hstatus (by simp [h.1.timeStatus, h.1.dateStatus])
  · rename_i hstatus
    rw [not_or, not_not, not_not] at hstatus
    split
    · rename_i hfield
      refine ⟨nofun, fun h => ?_⟩
      obtain ⟨⟨-, -, ⟨⟨hmonth, hmonth'⟩, hday, hday'⟩, hhours, hminutes, hseconds, hfraction⟩, -⟩ := h
      rw [UInt32.le_iff_toNat_le] at hmonth hmonth' hday hday' hfraction
      rw [UInt8.lt_iff_toNat_lt] at hhours hminutes hseconds
      simp only [gt_iff_lt, ge_iff_le, UInt32.lt_iff_toNat_lt, UInt8.le_iff_toNat_le] at hfield
      omega
    · rename_i hfields
      simp only [not_or, UInt32.not_lt, UInt8.not_le, gt_iff_lt, ge_iff_le] at hfields
      obtain ⟨hmonth, hmonth', hday, hday', hhours, hminutes, hseconds, hfraction⟩ := hfields
      have hvalid : s.Valid := ⟨hstatus.1, hstatus.2, ⟨⟨hmonth, hmonth'⟩, hday, hday'⟩, hhours,
        hminutes, hseconds, hfraction⟩
      constructor
      · intro h
        cases h
        exact ⟨hvalid, rfl⟩
      · rintro ⟨-, rfl⟩
        rfl

theorem secondsSinceEpoch_lt {a b : Snapshot} (ha : a.Valid) (hb : b.Valid) (h : a.Earlier b) :
    a.secondsSinceEpoch.value < b.secondsSinceEpoch.value := by
  have hminutes := ha.minutes
  have hseconds := ha.seconds
  have hhours := ha.hours
  rw [UInt8.lt_iff_toNat_lt] at hhours hminutes hseconds
  have h24 : (24 : UInt8).toNat = 24 := rfl
  have h60 : (60 : UInt8).toNat = 60 := rfl
  rw [Int64.lt_iff_toInt_lt, (secondsSinceEpoch_spec ha).1, (secondsSinceEpoch_spec hb).1]
  rcases h with hdate | ⟨hdate, htime⟩
  · have hdays := CivilDate.days_lt ha.date hb.date (CivilDate.days_spec ha.date a.marchYear_ge).2
      (CivilDate.days_spec hb.date b.marchYear_ge).2 hdate
    omega
  · rw [hdate]
    simp only [UInt8.lt_iff_toNat_lt, ← UInt8.toNat_inj] at htime
    omega

theorem getTime_lt {a b : Snapshot} (ha : a.Valid) (hb : b.Valid) (h : a.Earlier b) :
    ∃ earlier later, a.getTime = .ok earlier ∧ b.getTime = .ok later ∧
      earlier.secondsSinceEpoch < later.secondsSinceEpoch := by
  have hlt := secondsSinceEpoch_lt ha hb h
  refine ⟨_, _, getTime_ok_iff.mpr ⟨ha, rfl⟩, getTime_ok_iff.mpr ⟨hb, rfl⟩, ?_⟩
  dsimp only
  exact hlt

end Snapshot

/-- The days are counted exactly and in order. -/
structure CountsDays : Prop where
  epoch : (daysFromCivil 1970 1 1).value = 0
  next : ∀ date : CivilDate, date.Valid → date.Fits → date.next.exact = true →
    date.next.value.Fits ∧ date.next.value.days.value.toInt = date.days.value.toInt + 1
  after : ∀ (n : Nat) (a b : CivilDate), a.Valid → a.Fits → CivilDate.After n a b →
    b.days.value.toInt = a.days.value.toInt + n
  mono : ∀ a b : CivilDate, a.Valid → b.Valid → a.Fits → b.Fits → a.Before b →
    a.days.value < b.days.value

theorem days_epoch : (daysFromCivil 1970 1 1).value = 0 := by
  have hvalid : CivilDate.Valid ⟨1970, 1, 1⟩ := ⟨by decide, by decide⟩
  have hdays := (CivilDate.days_spec hvalid (by decide)).1
  rw [← Int64.toInt_inj]
  exact hdays.trans (by decide)

theorem civil_days_counted :
    CountsDays ∧ ∀ a b : Snapshot, a.Valid → b.Valid → a.Earlier b →
      ∃ earlier later, a.getTime = .ok earlier ∧ b.getTime = .ok later ∧
        earlier.secondsSinceEpoch < later.secondsSinceEpoch where
  left :=
    { epoch := days_epoch
      next := fun _ h hfits hexact =>
        ⟨CivilDate.fits_next h hfits hexact, CivilDate.days_next h hfits hexact⟩
      after := fun _ _ _ h hfits hafter => (CivilDate.days_after hafter h hfits).2.2
      mono := fun _ _ ha hb hfits hfits' h =>
        Int64.lt_iff_toInt_lt.mpr (CivilDate.days_lt ha hb hfits hfits' h) }
  right := fun _ _ ha hb h => Snapshot.getTime_lt ha hb h

def beforeLeapDay : Snapshot := ⟨.ok, ⟨23, 59, 59, 0, 255⟩, .ok, ⟨2, 28, 24⟩⟩

def afterLeapDay : Snapshot := ⟨.ok, ⟨0, 0, 0, 255, 255⟩, .ok, ⟨3, 1, 24⟩⟩

theorem civil_days_counted_leapDay :
    (CivilDate.mk 2024 3 1).days.value.toInt = (CivilDate.mk 2024 2 28).days.value.toInt + 2 ∧
      (CivilDate.mk 2024 2 28).days.value < (CivilDate.mk 2024 3 1).days.value ∧
      ∃ earlier later, beforeLeapDay.getTime = .ok earlier ∧ afterLeapDay.getTime = .ok later ∧
        earlier.secondsSinceEpoch < later.secondsSinceEpoch := by
  have hvalid : CivilDate.Valid ⟨2024, 2, 28⟩ := ⟨by decide, by decide⟩
  have hvalid' : CivilDate.Valid ⟨2024, 3, 1⟩ := ⟨by decide, by decide⟩
  have hfits : CivilDate.Fits ⟨2024, 2, 28⟩ := by decide
  have hfits' : CivilDate.Fits ⟨2024, 3, 1⟩ := by decide
  have hafter : CivilDate.After 2 ⟨2024, 2, 28⟩ ⟨2024, 3, 1⟩ := by
    have h := CivilDate.After.next (.next (.refl ⟨2024, 2, 28⟩) (by decide)) (by decide)
    rwa [show (CivilDate.mk 2024 2 28).next.value.next.value = ⟨2024, 3, 1⟩ by decide] at h
  obtain ⟨hcounts, hreadings⟩ := civil_days_counted
  refine ⟨hcounts.after 2 _ _ hvalid hfits hafter,
    hcounts.mono _ _ hvalid hvalid' hfits hfits' (by decide), hreadings _ _ ?_ ?_ (Or.inl (by decide))⟩
  · exact ⟨rfl, rfl, ⟨by decide, by decide⟩, by decide, by decide, by decide, by decide⟩
  · exact ⟨rfl, rfl, ⟨by decide, by decide⟩, by decide, by decide, by decide, by decide⟩

end SimPLCity.CivilDates
