import Relata.Proofs.Text.Decimal

/-! # Numbers of one width

A number with no more digits than a width is padded to exactly the width. Its digits are read
back as the number, and the texts of two numbers come in the order of the numbers.
-/

namespace Relata.Text

open Std

def lastDigits : Nat → Nat → List Char
  | 0, _ => []
  | w + 1, n => lastDigits w (n / 10) ++ [digitChar (n % 10)]

theorem length_lastDigits (w n : Nat) : (lastDigits w n).length = w := by
  induction w generalizing n with
  | zero => rfl
  | succ w ih => rw [lastDigits, List.length_append, ih, List.length_singleton]

theorem isDigit_of_mem_lastDigits {w n : Nat} {c : Char} (h : c ∈ lastDigits w n) :
    isDigit c = true := by
  induction w generalizing n with
  | zero => cases h
  | succ w ih =>
    rcases List.mem_append.mp h with h | h
    · exact ih h
    · exact List.mem_singleton.mp h ▸ isDigit_digitChar (by omega)

theorem valueOfDigits_lastDigits {w n : Nat} (h : n < 10 ^ w) :
    valueOfDigits (lastDigits w n) = n := by
  induction w generalizing n with
  | zero =>
    obtain rfl : n = 0 := by simpa using h
    rfl
  | succ w ih =>
    rw [lastDigits, valueOfDigits_concat, ih (by omega), digitValue_digitChar (by omega)]
    omega

theorem compare_lastDigits {w m n : Nat} (hm : m < 10 ^ w) (hn : n < 10 ^ w) :
    compare (lastDigits w m) (lastDigits w n) = compare m n := by
  induction w generalizing m n with
  | zero =>
    obtain rfl : m = 0 := by simpa using hm
    obtain rfl : n = 0 := by simpa using hn
    rfl
  | succ w ih =>
    have hparts := @Positional.compare_mul_add 10 (m / 10) (n / 10) (m % 10) (n % 10) (by omega)
      (by omega)
    rw [Nat.div_add_mod, Nat.div_add_mod] at hparts
    rw [lastDigits, lastDigits, compare_append (by rw [length_lastDigits, length_lastDigits]),
      ih (by omega) (by omega), compare_single, compare_digitChar (by omega) (by omega), hparts]

theorem compare_field {w m n : Nat} (hm : m < 10 ^ w) (hn : n < 10 ^ w) (c : Char)
    (as bs : List Char) :
    compare (lastDigits w m ++ c :: as) (lastDigits w n ++ c :: bs) =
      (compare m n).then (compare as bs) := by
  rw [compare_append (by rw [length_lastDigits, length_lastDigits]), compare_lastDigits hm hn,
    List.compare_cons_cons, ReflOrd.compare_self]
  rfl

/-! ## Padding -/

theorem padded_succ {w : Nat} (h : 0 < w) (n : Nat) :
    padded (w + 1) n = padded w (n / 10) ++ [digitChar (n % 10)] := by
  by_cases hn : n < 10
  · have hfirst : n / 10 = 0 := by omega
    have hdigit : n % 10 = n := by omega
    obtain ⟨w, rfl⟩ := Nat.exists_eq_add_of_le' h
    rw [hfirst, hdigit, padded, padded, decimal_zero, decimal_of_lt hn]
    simp [List.replicate_succ']
  · rw [padded, padded, decimal_of_le (by omega)]
    simp

theorem padded_eq_lastDigits {w n : Nat} (hw : 0 < w) (h : n < 10 ^ w) :
    padded w n = lastDigits w n := by
  induction w generalizing n with
  | zero => omega
  | succ w ih =>
    cases w with
    | zero =>
      have hn : n < 10 := by simpa using h
      rw [padded, decimal_of_lt hn, lastDigits, Nat.mod_eq_of_lt hn]
      rfl
    | succ w =>
      rw [padded_succ (by omega), ih (by omega) (by omega)]
      rfl

end Relata.Text
