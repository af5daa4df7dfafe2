import Mathlib.Tactic.IntervalCases
import Relata.Proofs.Text.Positional
import Relata.Text.Ascii

/-! # Decimal spellings

An integer has one spelling: a minus sign if it is negative, and then digits of which the
first is a zero only if it is the only one. The reader takes other texts for the same integer
too, those with a plus sign or with zeros in front, but it takes the spelling for no other.
-/

namespace Relata.Text

/-! ### Digits -/

theorem isDigit_digitChar {d : Nat} (h : d < 10) : isDigit (digitChar d) = true := by
  interval_cases d <;> rfl

theorem digitValue_digitChar {d : Nat} (h : d < 10) : digitValue (digitChar d) = d := by
  interval_cases d <;> rfl

theorem compare_digitChar {d e : Nat} (hd : d < 10) (he : e < 10) :
    compare (digitChar d) (digitChar e) = compare d e := by
  interval_cases d <;> interval_cases e <;> rfl

theorem isDigit_iff {c : Char} : isDigit c = true ↔ '0'.toNat ≤ c.toNat ∧ c.toNat ≤ '9'.toNat := by
  simp only [isDigit, Bool.and_eq_true, decide_eq_true_eq, Char.le_def, UInt32.le_iff_toNat_le]
  rfl

theorem digitValue_lt {c : Char} (h : isDigit c = true) : digitValue c < 10 := by
  have h := isDigit_iff.mp h
  have : '0'.toNat = 48 := rfl
  have : '9'.toNat = 57 := rfl
  unfold digitValue
  omega

theorem digitChar_digitValue {c : Char} (h : isDigit c = true) : digitChar (digitValue c) = c := by
  have hc : '0'.toNat + digitValue c = c.toNat := by
    have h := (isDigit_iff.mp h).1
    unfold digitValue
    omega
  rw [digitChar, hc, Char.ofNat_toNat]

/-! ### Naturals -/

theorem valueOfDigits_concat (cs : List Char) (c : Char) :
    valueOfDigits (cs ++ [c]) = 10 * valueOfDigits cs + digitValue c := by
  simp [valueOfDigits]

theorem decimal_of_lt {n : Nat} (h : n < 10) : decimal n = [digitChar n] := by
  rw [decimal, if_pos h]

theorem decimal_of_le {n : Nat} (h : 10 ≤ n) :
    decimal n = decimal (n / 10) ++ [digitChar (n % 10)] := by
  rw [decimal, if_neg (by omega)]

theorem decimal_zero : decimal 0 = ['0'] :=
  decimal_of_lt (by omega)

theorem positional_decimal (n : Nat) : Positional 10 digitChar (decimal n) n :=
  positional_of_step (by omega) (fun n => by rw [decimal]) n

theorem Positional.valueOfDigits_eq {cs : List Char} {n : Nat}
    (h : Positional 10 digitChar cs n) : valueOfDigits cs = n := by
  induction h with
  | single lt => simp [valueOfDigits, digitValue_digitChar lt]
  | snoc _ _ lt ih => rw [valueOfDigits_concat, ih, digitValue_digitChar lt]

theorem decimal_ne_nil (n : Nat) : decimal n ≠ [] :=
  (positional_decimal n).ne_nil

theorem isDigit_of_mem_decimal {n : Nat} {c : Char} (h : c ∈ decimal n) : isDigit c = true := by
  obtain ⟨d, hd, rfl⟩ := (positional_decimal n).exists_digit h
  exact isDigit_digitChar hd

theorem valueOfDigits_decimal (n : Nat) : valueOfDigits (decimal n) = n :=
  (positional_decimal n).valueOfDigits_eq

theorem head?_decimal {n : Nat} (h : 0 < n) : (decimal n).head? ≠ some '0' :=
  (positional_decimal n).head?_ne compare_digitChar h

section

variable {cs : List Char} (some : cs ≠ []) (digits : ∀ c ∈ cs, isDigit c = true)
  (leading : cs.head? ≠ .some '0')

include some digits leading

theorem exists_positional : ∃ n, 0 < n ∧ Positional 10 digitChar cs n :=
  Positional.exists_of_digits some (fun c hc => ⟨digitValue c, digitValue_lt (digits c hc),
    (digitChar_digitValue (digits c hc)).symm⟩) leading

theorem valueOfDigits_pos : 0 < valueOfDigits cs := by
  obtain ⟨n, pos, h⟩ := exists_positional some digits leading
  rwa [h.valueOfDigits_eq]

theorem decimal_valueOfDigits : decimal (valueOfDigits cs) = cs := by
  obtain ⟨n, -, h⟩ := exists_positional some digits leading
  rw [h.valueOfDigits_eq]
  exact (positional_decimal n).unique compare_digitChar h

end

theorem natural?_decimal (n : Nat) : natural? (decimal n) = some n := by
  have digits : (decimal n).all isDigit = true :=
    List.all_eq_true.mpr fun _ => isDigit_of_mem_decimal
  rw [natural?, digits, valueOfDigits_decimal]
  simp [decimal_ne_nil]

/-! ### Integers -/

theorem integer?_cons {c : Char} {cs : List Char} (h : isDigit c = true) :
    integer? (c :: cs) = (natural? (c :: cs)).map Int.ofNat := by
  unfold integer?
  split
  · next heq =>
    cases heq
    cases h
  · next heq =>
    cases heq
    cases h
  · rfl

theorem integer?_signed (n : Int) : integer? (signed n) = some n := by
  unfold signed
  split
  · next neg =>
    have value : -(n.natAbs : Int) = n := by omega
    rw [integer?, natural?_decimal]
    exact congrArg some value
  · next nonneg =>
    obtain ⟨c, cs, h⟩ := List.exists_cons_of_ne_nil (decimal_ne_nil n.natAbs)
    have value : (n.natAbs : Int) = n := by omega
    rw [h, integer?_cons (isDigit_of_mem_decimal (h ▸ List.mem_cons_self)), ← h,
      natural?_decimal]
    exact congrArg some value

theorem signed_zero : signed 0 = ['0'] := by
  rw [signed, if_neg (by omega), Int.natAbs_zero, decimal_zero]

/-- What spells an integer: zero, or digits without a zero in front, after at most a minus
sign. -/
inductive Spells : List Char → Int → Prop
  | zero : Spells ['0'] 0
  | positive {cs : List Char} (some : cs ≠ []) (digits : ∀ c ∈ cs, isDigit c = true)
      (leading : cs.head? ≠ .some '0') : Spells cs (valueOfDigits cs)
  | negative {cs : List Char} (some : cs ≠ []) (digits : ∀ c ∈ cs, isDigit c = true)
      (leading : cs.head? ≠ .some '0') : Spells ('-' :: cs) (-valueOfDigits cs)

theorem spells_signed (n : Int) : Spells (signed n) n := by
  have digits (c : Char) : c ∈ decimal n.natAbs → isDigit c = true := isDigit_of_mem_decimal
  have value := valueOfDigits_decimal n.natAbs
  rcases lt_trichotomy n 0 with h | rfl | h
  · have spells := Spells.negative (decimal_ne_nil _) digits (head?_decimal (by omega))
    rw [value, show -(n.natAbs : Int) = n by omega] at spells
    rwa [signed, if_pos h]
  · rw [signed_zero]
    exact .zero
  · have spells := Spells.positive (decimal_ne_nil _) digits (head?_decimal (by omega))
    rw [value, show (n.natAbs : Int) = n by omega] at spells
    rwa [signed, if_neg (by omega)]

/-- An integer is spelled by nothing but its spelling. -/
theorem Spells.eq_signed {cs : List Char} {n : Int} (h : Spells cs n) : cs = signed n := by
  cases h with
  | zero => exact signed_zero.symm
  | positive some digits leading =>
    rw [signed, if_neg (by omega), Int.natAbs_natCast,
      decimal_valueOfDigits some digits leading]
  | @negative cs some digits leading =>
    have pos := valueOfDigits_pos some digits leading
    rw [signed, if_pos (by omega), Int.natAbs_neg, Int.natAbs_natCast,
      decimal_valueOfDigits some digits leading]

theorem spells_iff {cs : List Char} {n : Int} : Spells cs n ↔ cs = signed n := by
  constructor
  · exact Spells.eq_signed
  · rintro rfl
    exact spells_signed n

end Relata.Text
