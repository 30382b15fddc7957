import Mathlib.Algebra.Order.BigOperators.Group.List
import Mathlib.Algebra.Ring.Nat
import Mathlib.Data.List.GetD
import Mathlib.Data.String.Basic
import Mathlib.Order.Monotone.Basic

/-!
# ServeProof.Calendar.Civil

Dates of the Gregorian calendar, for every year, and their texts.

A day is a number; day 0 is 1970-01-01.

* `CivilDate` -- a date that exists, with its day `dayNumber`;
* `ofDay` -- the date of a day;
* `iso` -- the text of a date with a year of four digits;
* `enCA` -- the text with the year as it is.

The order of the days is the order of the texts as long as the years have four
digits (`iso_lt_iff`, `enCA_eq_iso`).
-/

namespace Calendar

/-! ## Parts of a whole -/

/-- The part a position falls into, and the position in it. -/
def locate : List Nat → Nat → Nat × Nat
  | [], k => (0, k)
  | l :: ls, k => if k < l then (0, k) else ((locate ls (k - l)).1 + 1, (locate ls (k - l)).2)

theorem locate_spec {ls : List Nat} {k : Nat} (h : k < ls.sum) :
    (locate ls k).2 < ls.getD (locate ls k).1 0 ∧
      (ls.take (locate ls k).1).sum + (locate ls k).2 = k := by
  induction ls generalizing k with
  | nil => simp at h
  | cons l ls ih =>
      rw [List.sum_cons] at h
      by_cases hk : k < l
      · simp [locate, hk]
      · have hrest : k - l < ls.sum := by omega
        obtain ⟨hlt, hsum⟩ := ih hrest
        simp only [locate, if_neg hk, List.getD_cons_succ, List.take_succ_cons, List.sum_cons]
        exact ⟨hlt, by omega⟩

theorem locate_fst_lt {ls : List Nat} {k : Nat} (h : k < ls.sum) : (locate ls k).1 < ls.length := by
  by_contra hlen
  have hlt := (locate_spec h).1
  rw [List.getD_eq_default _ _ (Nat.not_lt.mp hlen)] at hlt
  omega

/-- A position in an earlier part is an earlier position. -/
theorem sum_take_lt {ls : List Nat} {i j r r' : Nat} (hij : i < j) (hr : r < ls.getD i 0) :
    (ls.take i).sum + r < (ls.take j).sum + r' := by
  induction ls generalizing i j with
  | nil => simp at hr
  | cons l ls ih =>
      obtain ⟨j, rfl⟩ : ∃ j', j = j' + 1 := ⟨j - 1, by omega⟩
      cases i with
      | zero =>
          rw [List.getD_cons_zero] at hr
          rw [List.take_zero, List.sum_nil, List.take_succ_cons, List.sum_cons]
          omega
      | succ i =>
          rw [List.getD_cons_succ] at hr
          have := ih (Nat.lt_of_succ_lt_succ hij) hr
          rw [List.take_succ_cons, List.take_succ_cons, List.sum_cons, List.sum_cons]
          omega

/-! ## Years -/

def IsLeap (year : Int) : Prop := year % 4 = 0 ∧ (year % 100 ≠ 0 ∨ year % 400 = 0)

instance (year : Int) : Decidable (IsLeap year) :=
  inferInstanceAs (Decidable (_ ∧ (_ ∨ _)))

/-- The first day of a year. -/
def yearStart (year : Int) : Int :=
  365 * (year - 1970) + (year - 1969) / 4 - (year - 1901) / 100 + (year - 1601) / 400

def yearLength (year : Int) : Nat := if IsLeap year then 366 else 365

theorem yearStart_succ (year : Int) : yearStart (year + 1) = yearStart year + yearLength year := by
  by_cases h : IsLeap year
  · rw [yearLength, if_pos h]
    unfold yearStart
    unfold IsLeap at h
    omega
  · rw [yearLength, if_neg h]
    unfold yearStart
    unfold IsLeap at h
    omega

theorem yearStart_lt_iff {year year' : Int} : yearStart year < yearStart year' ↔ year < year' := by
  refine (strictMono_int_of_lt_succ fun year => ?_).lt_iff_lt
  rw [yearStart_succ]
  have : 0 < yearLength year := by
    unfold yearLength
    split <;> decide
  omega

/-- The year a day falls into. -/
def yearOf (day : Int) : Int :=
  let guess := 1970 + 400 * day / 146097
  if day < yearStart guess then guess - 1
  else if yearStart (guess + 1) ≤ day then guess + 1
  else guess

theorem yearOf_spec (day : Int) :
    yearStart (yearOf day) ≤ day ∧ day < yearStart (yearOf day + 1) := by
  unfold yearOf
  simp only
  split
  · next hbefore =>
    refine ⟨?_, by rwa [Int.sub_add_cancel]⟩
    unfold yearStart
    omega
  · next hfrom =>
    split
    · next hafter =>
      refine ⟨hafter, ?_⟩
      unfold yearStart
      omega
    · next hto => exact ⟨Int.not_lt.mp hfrom, Int.not_le.mp hto⟩

/-- No other year has the day. -/
theorem yearOf_eq {day year : Int} (h : yearStart year ≤ day) (h' : day < yearStart (year + 1)) :
    yearOf day = year := by
  obtain ⟨hle, hlt⟩ := yearOf_spec day
  have h₁ := yearStart_lt_iff.mp (lt_of_le_of_lt h hlt)
  have h₂ := yearStart_lt_iff.mp (lt_of_le_of_lt hle h')
  omega

/-! ## Dates -/

def monthLengths (year : Int) : List Nat :=
  [31, if IsLeap year then 29 else 28, 31, 30, 31, 30, 31, 31, 30, 31, 30, 31]

theorem sum_monthLengths (year : Int) : (monthLengths year).sum = yearLength year := by
  unfold monthLengths yearLength
  split <;> rfl

/-- A date of the calendar: the month is one of its year's, the day of the month's. -/
structure CivilDate where
  year : Int
  month : Nat
  day : Nat
  month_pos : 0 < month
  day_pos : 0 < day
  day_le : day ≤ (monthLengths year).getD (month - 1) 0

namespace CivilDate

theorem month_le (d : CivilDate) : d.month ≤ 12 := by
  by_contra h
  have hday := d.day_le
  have hout : (monthLengths d.year).length ≤ d.month - 1 := by
    simp only [monthLengths, List.length_cons, List.length_nil]
    omega
  rw [List.getD_eq_default _ _ hout] at hday
  exact absurd (Nat.lt_of_lt_of_le d.day_pos hday) (Nat.lt_irrefl 0)

theorem day_lt (d : CivilDate) : d.day < 100 := by
  have hle : ∀ l ∈ monthLengths d.year, l ≤ 31 := by
    unfold monthLengths
    split <;> decide
  have hday := d.day_le
  have hlen : d.month - 1 < (monthLengths d.year).length := by
    have := d.month_le
    have := d.month_pos
    simp only [monthLengths, List.length_cons, List.length_nil]
    omega
  rw [List.getD_eq_getElem _ _ hlen] at hday
  have := hle _ (List.getElem_mem hlen)
  omega

def dayOfYear (d : CivilDate) : Nat :=
  ((monthLengths d.year).take (d.month - 1)).sum + (d.day - 1)

def dayNumber (d : CivilDate) : Int := yearStart d.year + d.dayOfYear

theorem dayOfYear_lt (d : CivilDate) : d.dayOfYear < yearLength d.year := by
  have hday := d.day_le
  have hpos := d.day_pos
  have hmonth : d.month - 1 < 12 := by
    have := d.month_le
    have := d.month_pos
    omega
  have h : d.dayOfYear < ((monthLengths d.year).take 12).sum + 0 := sum_take_lt hmonth (by omega)
  rwa [List.take_of_length_le (by simp [monthLengths]), sum_monthLengths, Nat.add_zero] at h

/-- An earlier date by its parts. -/
def Before (d e : CivilDate) : Prop :=
  d.year < e.year ∨ d.year = e.year ∧ (d.month < e.month ∨ d.month = e.month ∧ d.day < e.day)

theorem dayNumber_lt_of_before {d e : CivilDate} (h : d.Before e) :
    d.dayNumber < e.dayNumber := by
  obtain hyear | ⟨hyear, hrest⟩ := h
  · have hle : yearStart (d.year + 1) ≤ yearStart e.year :=
      Int.not_lt.mp (mt yearStart_lt_iff.mp (by omega))
    have hlt := d.dayOfYear_lt
    rw [yearStart_succ] at hle
    unfold dayNumber
    omega
  · have hpos := d.month_pos
    have hday := d.day_pos
    have hle := d.day_le
    suffices d.dayOfYear < e.dayOfYear by
      unfold dayNumber
      rw [hyear]
      omega
    unfold dayOfYear
    rw [← hyear]
    obtain hmonth | ⟨hmonth, hlt⟩ := hrest
    · exact sum_take_lt (by omega) (by omega)
    · rw [hmonth]
      omega

/-- The order of the days is the order of the dates by their parts. -/
theorem dayNumber_lt_iff {d e : CivilDate} : d.dayNumber < e.dayNumber ↔ d.Before e := by
  refine ⟨fun h => ?_, dayNumber_lt_of_before⟩
  by_contra hnot
  by_cases hback : e.Before d
  · exact absurd (dayNumber_lt_of_before hback) (Int.not_lt.mpr (Int.le_of_lt h))
  · unfold Before at hnot hback
    have hyear : d.year = e.year := by omega
    have hmonth : d.month = e.month := by omega
    have hday : d.day = e.day := by omega
    unfold dayNumber dayOfYear at h
    rw [hyear, hmonth, hday] at h
    exact absurd h (Int.lt_irrefl _)

end CivilDate

/-- The day in its year. -/
def dayInYear (day : Int) : Nat := (day - yearStart (yearOf day)).toNat

theorem dayInYear_lt (day : Int) : dayInYear day < (monthLengths (yearOf day)).sum := by
  obtain ⟨hle, hlt⟩ := yearOf_spec day
  rw [yearStart_succ] at hlt
  rw [sum_monthLengths, dayInYear]
  omega

/-- The date of a day. -/
def ofDay (day : Int) : CivilDate where
  year := yearOf day
  month := (locate (monthLengths (yearOf day)) (dayInYear day)).1 + 1
  day := (locate (monthLengths (yearOf day)) (dayInYear day)).2 + 1
  month_pos := Nat.succ_pos _
  day_pos := Nat.succ_pos _
  day_le := (locate_spec (dayInYear_lt day)).1

@[simp] theorem dayNumber_ofDay (day : Int) : (ofDay day).dayNumber = day := by
  have hsum := (locate_spec (dayInYear_lt day)).2
  have hle := (yearOf_spec day).1
  have hday : (ofDay day).dayOfYear = dayInYear day := hsum
  rw [CivilDate.dayNumber, hday, dayInYear]
  change yearStart (yearOf day) + _ = day
  omega

/-! ## Texts -/

/-- The last digits of a number, as many as `width` says. -/
def digits : Nat → Nat → List Char
  | 0, _ => []
  | width + 1, n => Nat.digitChar (n / 10 ^ width % 10) :: digits width n

theorem digits_succ (width n : Nat) :
    digits (width + 1) n = digits width (n / 10) ++ [Nat.digitChar (n % 10)] := by
  induction width with
  | zero => simp [digits]
  | succ width ih =>
      rw [digits, ih, digits, List.cons_append, Nat.div_div_eq_div_mul, Nat.pow_succ']

theorem toDigits_eq_digits {width n : Nat} (hle : 10 ^ width ≤ n) (hlt : n < 10 ^ (width + 1)) :
    Nat.toDigits 10 n = digits (width + 1) n := by
  induction width generalizing n with
  | zero =>
      rw [Nat.toDigits_of_lt_base (by simpa using hlt), digits_succ, digits, List.nil_append,
        Nat.mod_eq_of_lt (by simpa using hlt)]
  | succ width ih =>
      have hten : 10 ≤ n := by
        have : 10 ^ 1 ≤ 10 ^ (width + 1) := Nat.pow_le_pow_right (by decide) (by omega)
        omega
      rw [Nat.pow_succ] at hle
      rw [Nat.pow_succ] at hlt
      rw [Nat.toDigits_of_base_le (by decide) hten, ih (by omega) (by omega),
        digits_succ (width + 1)]

theorem digitChar_lt_iff {a b : Nat} (ha : a < 10) (hb : b < 10) :
    Nat.digitChar a < Nat.digitChar b ↔ a < b := by
  have hall : ∀ a < 10, ∀ b < 10, (Nat.digitChar a < Nat.digitChar b ↔ a < b) := by decide
  exact hall a ha b hb

theorem digitChar_inj {a b : Nat} (ha : a < 10) (hb : b < 10) :
    Nat.digitChar a = Nat.digitChar b ↔ a = b := by
  have hall : ∀ a < 10, ∀ b < 10, (Nat.digitChar a = Nat.digitChar b ↔ a = b) := by decide
  exact hall a ha b hb

/-- Texts that begin with numbers of one width are in the order of the numbers. -/
theorem digits_append_lt {width m n : Nat} {l l' : List Char} :
    digits width m ++ l < digits width n ++ l' ↔
      m % 10 ^ width < n % 10 ^ width ∨ m % 10 ^ width = n % 10 ^ width ∧ l < l' := by
  induction width with
  | zero => simp [digits, Nat.mod_one]
  | succ width ih =>
      have hm := Nat.mod_lt (m / 10 ^ width) (show 0 < 10 by decide)
      have hn := Nat.mod_lt (n / 10 ^ width) (show 0 < 10 by decide)
      have hm' := Nat.mod_lt m (Nat.pow_pos (n := width) (show 0 < 10 by decide))
      have hn' := Nat.mod_lt n (Nat.pow_pos (n := width) (show 0 < 10 by decide))
      rw [digits, digits, List.cons_append, List.cons_append, List.cons_lt_cons_iff, ih,
        digitChar_lt_iff hm hn, digitChar_inj hm hn, Nat.mod_pow_succ, Nat.mod_pow_succ]
      generalize m / 10 ^ width % 10 = a at *
      generalize n / 10 ^ width % 10 = b at *
      generalize 10 ^ width = p at *
      obtain hab | rfl | hab := Nat.lt_trichotomy a b
      · have : p * (a + 1) ≤ p * b := Nat.mul_le_mul_left p hab
        rw [Nat.mul_add] at this
        exact ⟨fun _ => .inl (by omega), fun _ => .inl hab⟩
      · simp
      · have : p * (b + 1) ≤ p * a := Nat.mul_le_mul_left p hab
        rw [Nat.mul_add] at this
        constructor
        · rintro (h | ⟨h, -⟩) <;> omega
        · rintro (h | ⟨h, -⟩) <;> omega

namespace CivilDate

variable (d e : CivilDate)

/-- `-MM-DD`. -/
def monthAndDay : List Char := '-' :: (digits 2 d.month ++ '-' :: digits 2 d.day)

/-- `YYYY-MM-DD`. -/
def iso : String := String.ofList (digits 4 d.year.toNat ++ d.monthAndDay)

/-- The year as it is counted in its era: 1 is preceded by 1. -/
def yearOfEra : Nat := if 0 < d.year then d.year.toNat else (1 - d.year).toNat

/-- `Y-MM-DD`, the year with as many digits as it has. -/
def enCA : String := String.ofList (Nat.toDigits 10 d.yearOfEra ++ d.monthAndDay)

variable {d e}

theorem enCA_eq_iso (h : 1000 ≤ d.year) (h' : d.year ≤ 9999) : d.enCA = d.iso := by
  rw [enCA, iso, yearOfEra, if_pos (by omega),
    toDigits_eq_digits (show 10 ^ 3 ≤ d.year.toNat by omega) (by omega)]

theorem monthAndDay_lt_iff : d.monthAndDay < e.monthAndDay ↔
    d.month < e.month ∨ d.month = e.month ∧ d.day < e.day := by
  have hsame (a : List Char) : a = a ++ [] := (List.append_nil a).symm
  rw [monthAndDay, monthAndDay, List.cons_lt_cons_iff, digits_append_lt, List.cons_lt_cons_iff,
    hsame (digits 2 d.day), hsame (digits 2 e.day), digits_append_lt]
  have := d.month_le
  have := e.month_le
  rw [Nat.mod_eq_of_lt (show d.month < 10 ^ 2 by omega),
    Nat.mod_eq_of_lt (show e.month < 10 ^ 2 by omega),
    Nat.mod_eq_of_lt (show d.day < 10 ^ 2 from d.day_lt),
    Nat.mod_eq_of_lt (show e.day < 10 ^ 2 from e.day_lt)]
  simp

/-- **The texts of dates with years of four digits are in the order of the days.** -/
theorem iso_lt_iff (hd : 0 ≤ d.year) (hd' : d.year ≤ 9999) (he : 0 ≤ e.year)
    (he' : e.year ≤ 9999) : d.iso < e.iso ↔ d.dayNumber < e.dayNumber := by
  rw [dayNumber_lt_iff, Before, iso, iso, String.lt_iff_toList_lt, String.toList_ofList,
    String.toList_ofList, digits_append_lt, monthAndDay_lt_iff,
    Nat.mod_eq_of_lt (show d.year.toNat < 10 ^ 4 by omega),
    Nat.mod_eq_of_lt (show e.year.toNat < 10 ^ 4 by omega)]
  have hlt : d.year.toNat < e.year.toNat ↔ d.year < e.year := by omega
  have heq : d.year.toNat = e.year.toNat ↔ d.year = e.year := by omega
  rw [hlt, heq]

end CivilDate

end Calendar
