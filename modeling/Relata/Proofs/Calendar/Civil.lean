import Relata.Calendar.Civil
import Relata.Proofs.Lexicographic

/-! # Dates and days

Every day has one date, and the dates of days come in the order of the days. A year is as long as
its months, and the year of a day is the one whose days it is among.
-/

namespace Relata

open Std

namespace Calendar

/-! ## Years -/

theorem isLeap_iff {y : Int} : isLeap y = true ↔ y % 4 = 0 ∧ (y % 100 ≠ 0 ∨ y % 400 = 0) := by
  simp [isLeap]

def daysInYear (leap : Bool) : Nat :=
  if leap then 366 else 365

theorem daysBeforeYear_succ (y : Int) :
    daysBeforeYear (y + 1) = daysBeforeYear y + daysInYear (isLeap y) := by
  by_cases h : isLeap y = true
  · have := isLeap_iff.mp h
    rw [h, daysBeforeYear, daysBeforeYear, daysInYear, if_pos rfl]
    omega
  · have := mt isLeap_iff.mpr h
    rw [Bool.eq_false_iff.mpr h, daysBeforeYear, daysBeforeYear, daysInYear,
      if_neg Bool.false_ne_true]
    omega

theorem daysBeforeYear_mono {y z : Int} (h : y ≤ z) : daysBeforeYear y ≤ daysBeforeYear z := by
  simp only [daysBeforeYear]
  omega

theorem yearOf_bounds (d : Int) :
    daysBeforeYear (yearOf d) ≤ d ∧ d < daysBeforeYear (yearOf d + 1) := by
  -- The estimate is at most one year off.
  have low : daysBeforeYear (d * 400 / 146097 + 1 - 1) ≤ d := by
    simp only [daysBeforeYear]
    omega
  have high : d < daysBeforeYear (d * 400 / 146097 + 1 + 1 + 1) := by
    simp only [daysBeforeYear]
    omega
  rw [yearOf]
  split
  · next before => exact ⟨low, by rwa [Int.sub_add_cancel]⟩
  · next notBefore =>
    split
    · next after => exact ⟨after, high⟩
    · next notAfter => exact ⟨Int.not_lt.mp notBefore, Int.not_le.mp notAfter⟩

theorem le_yearOf_iff {y d : Int} : y ≤ yearOf d ↔ daysBeforeYear y ≤ d := by
  obtain ⟨hfirst, hlast⟩ := yearOf_bounds d
  constructor
  · exact fun h => Int.le_trans (daysBeforeYear_mono h) hfirst
  · intro h
    by_contra hlater
    have hmono := daysBeforeYear_mono (Int.add_one_le_of_lt (Int.not_le.mp hlater))
    omega

/-! ## Months -/

theorem daysInMonth_le (leap : Bool) (m : Nat) : daysInMonth leap m ≤ 31 := by
  rw [daysInMonth]
  split_ifs <;> omega

theorem daysBeforeMonth_succ (leap : Bool) {m : Nat} (h : 1 ≤ m) :
    daysBeforeMonth leap (m + 1) = daysBeforeMonth leap m + daysInMonth leap m := by
  obtain ⟨m, rfl⟩ := Nat.exists_eq_add_of_le' h
  rfl

theorem daysBeforeMonth_mono (leap : Bool) {m n : Nat} (h : m ≤ n) :
    daysBeforeMonth leap m ≤ daysBeforeMonth leap n := by
  induction h with
  | refl => exact Nat.le_refl _
  | @step n _ ih =>
    refine Nat.le_trans ih ?_
    cases n with
    | zero => exact Nat.le_refl _
    | succ n => exact Nat.le_add_right _ _

theorem daysBeforeMonth_end (leap : Bool) : daysBeforeMonth leap 13 = daysInYear leap := by
  cases leap <;> rfl

theorem monthFrom_spec (leap : Bool) {m d : Nat} (months : Nat) (hm : 1 ≤ m)
    (hd : daysBeforeMonth leap m + d < daysBeforeMonth leap (m + months + 1)) :
    m ≤ (monthFrom leap m d months).1 ∧ (monthFrom leap m d months).1 ≤ m + months ∧
    1 ≤ (monthFrom leap m d months).2 ∧
    (monthFrom leap m d months).2 ≤ daysInMonth leap (monthFrom leap m d months).1 ∧
    daysBeforeMonth leap (monthFrom leap m d months).1 + (monthFrom leap m d months).2 =
      daysBeforeMonth leap m + d + 1 := by
  induction months generalizing m d with
  | zero =>
    rw [Nat.add_zero, daysBeforeMonth_succ leap hm] at hd
    simp only [monthFrom]
    omega
  | succ months ih =>
    have hnext := daysBeforeMonth_succ leap hm
    rw [monthFrom]
    split
    · simp only
      omega
    · next hlater =>
      have hrest : m + 1 + months + 1 = m + (months + 1) + 1 := by omega
      have h := ih (m := m + 1) (d := d - daysInMonth leap m) (by omega) (by rw [hrest]; omega)
      omega

end Calendar

namespace Date

open Calendar

theorem isValid_iff {d : Date} :
    d.isValid = true ↔
      1 ≤ d.month ∧ d.month ≤ 12 ∧ 1 ≤ d.day ∧ d.day ≤ daysInMonth (isLeap d.year) d.month := by
  simp [isValid, and_assoc]

theorem toDays_bounds {d : Date} (valid : d.isValid = true) :
    daysBeforeYear d.year ≤ d.toDays ∧ d.toDays < daysBeforeYear (d.year + 1) := by
  obtain ⟨hm, hm', hd, hd'⟩ := isValid_iff.mp valid
  have hmonth := daysBeforeMonth_succ (isLeap d.year) hm
  have hyear := daysBeforeMonth_mono (isLeap d.year) (m := d.month + 1) (n := 13) (by omega)
  rw [daysBeforeMonth_end] at hyear
  rw [daysBeforeYear_succ, toDays]
  omega

section

variable {d e : Date} (hd : d.isValid = true) (he : e.isValid = true)

include hd he

theorem toDays_lt_of_year_lt (h : d.year < e.year) : d.toDays < e.toDays := by
  have hnext := daysBeforeYear_mono (y := d.year + 1) (z := e.year) (by omega)
  have := (toDays_bounds hd).2
  have := (toDays_bounds he).1
  omega

theorem toDays_lt_of_month_lt (hyear : d.year = e.year) (h : d.month < e.month) :
    d.toDays < e.toDays := by
  obtain ⟨hm, -, -, hday⟩ := isValid_iff.mp hd
  obtain ⟨-, -, hday', -⟩ := isValid_iff.mp he
  have hmonth := daysBeforeMonth_succ (isLeap d.year) hm
  have hnext := daysBeforeMonth_mono (isLeap d.year) (m := d.month + 1) (n := e.month) (by omega)
  rw [toDays, toDays, ← hyear]
  omega

end

def fieldOrder : Date → Date → Ordering :=
  compareLex (compareOn year) (compareLex (compareOn month) (compareOn day))

/-- Dates come in the order of their days. -/
theorem compare_toDays {d e : Date} (hd : d.isValid = true) (he : e.isValid = true) :
    compare d.toDays e.toDays = fieldOrder d e := by
  simp only [fieldOrder, compareLex, compareOn]
  refine compare_eq_then (toDays_lt_of_year_lt hd he) (toDays_lt_of_year_lt he hd) fun hyear => ?_
  refine compare_eq_then (toDays_lt_of_month_lt hd he hyear)
    (toDays_lt_of_month_lt he hd hyear.symm) fun hmonth => ?_
  -- Within a month the days are counted on from the same day.
  have hdays : d.toDays - e.toDays = d.day - e.day := by
    rw [toDays, toDays, hyear, hmonth]
    omega
  exact compare_eq_compare (by omega) (by omega) (by omega)

theorem fieldOrder_eq_iff {d e : Date} : fieldOrder d e = .eq ↔ d = e := by
  obtain ⟨y, m, n⟩ := d
  obtain ⟨y', m', n'⟩ := e
  simp [fieldOrder, compareLex, compareOn, Ordering.then_eq_eq]

theorem toDays_inj {d e : Date} (hd : d.isValid = true) (he : e.isValid = true) :
    d.toDays = e.toDays ↔ d = e := by
  rw [← Int.compare_eq_eq, compare_toDays hd he, fieldOrder_eq_iff]

theorem ofDays_spec (n : Int) : (ofDays n).isValid = true ∧ (ofDays n).toDays = n := by
  have hyear := yearOf_bounds n
  rw [daysBeforeYear_succ] at hyear
  have hone : daysBeforeMonth (isLeap (yearOf n)) 1 = 0 := rfl
  have hend := daysBeforeMonth_end (isLeap (yearOf n))
  have hday : daysBeforeMonth (isLeap (yearOf n)) 1 + (n - daysBeforeYear (yearOf n)).toNat <
      daysBeforeMonth (isLeap (yearOf n)) (1 + 11 + 1) := by
    rw [hone, hend]
    omega
  have hmonth := monthFrom_spec _ 11 (Nat.le_refl 1) hday
  rw [isValid_iff, toDays, ofDays]
  simp only
  omega

end Date

end Relata
