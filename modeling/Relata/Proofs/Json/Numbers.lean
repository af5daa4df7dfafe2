import Mathlib.Data.List.TakeWhile
import Relata.Json.Printer
import Relata.Json.Reader
import Relata.Proofs.Number.Shortest
import Relata.Proofs.Sql.Token
import Relata.Proofs.Text.Decimal

/-! # Numbers in texts

A number is read up to what cannot go on with it. What is written of a number is read as that
number, whole ones apart from the others.
-/

namespace Relata

open Sql Text

/-! ## Digits -/

namespace Text

theorem valueOfDigits_append (cs ds : List Char) :
    valueOfDigits (cs ++ ds) = valueOfDigits cs * 10 ^ ds.length + valueOfDigits ds := by
  induction ds using List.reverseRecOn with
  | nil => simp [valueOfDigits]
  | append_singleton ds d ih =>
    rw [← List.append_assoc, valueOfDigits_concat, ih, valueOfDigits_concat, List.length_append,
      List.length_singleton, Nat.pow_succ]
    ring

theorem valueOfDigits_zeros (k : Nat) : valueOfDigits (List.replicate k '0') = 0 := by
  induction k with
  | zero => rfl
  | succ k ih =>
    rw [List.replicate_succ', valueOfDigits_concat, ih]
    rfl

theorem padded_one (n : Nat) : padded 1 n = decimal n := by
  have hlength : 0 < (decimal n).length := List.length_pos_of_ne_nil (decimal_ne_nil n)
  have hzeros : 1 - (decimal n).length = 0 := by omega
  simp [padded, hzeros]

end Text

namespace Json

/-! ## Tokens -/

/-- What does not go on with a number. -/
def Ends (rest : List Char) : Prop :=
  ∀ c ∈ rest.head?, isDigit c = false ∧ c ≠ '.' ∧ c ≠ 'e' ∧ c ≠ 'E'

def Stops (rest : List Char) : Prop :=
  ∀ c ∈ rest.head?, isDigit c = false

/-- The whole part of a number: digits without a zero in front of others. -/
structure Whole (cs : List Char) : Prop where
  some : cs ≠ []
  digits : ∀ c ∈ cs, isDigit c = true
  leading : cs.length = 1 ∨ cs.head? ≠ .some '0'

def minus (negative : Bool) (cs : List Char) : List Char :=
  if negative then '-' :: cs else cs

variable {digits tail rest : List Char}

theorem Ends.stops (h : Ends rest) : Stops rest :=
  fun c hc => (h c hc).1

theorem takeDigits_append (hdigits : ∀ c ∈ digits, isDigit c = true) (stops : Stops rest) :
    takeDigits (digits ++ rest) = (digits, rest) := by
  unfold takeDigits
  rw [takeWhile_append_of_head hdigits stops, dropWhile_append_of_head hdigits stops]

theorem stops_dropWhile (cs : List Char) : Stops (cs.dropWhile isDigit) := by
  intro c hc
  obtain ⟨tail, h⟩ := List.head?_eq_some_iff.mp hc
  have hhead := @List.head_dropWhile_not _ isDigit cs (by simp [h])
  simpa [h] using hhead

theorem fraction?_point (some : digits ≠ []) (hdigits : ∀ c ∈ digits, isDigit c = true)
    (stops : Stops rest) :
    fraction? ('.' :: (digits ++ rest)) = .some (.some digits, rest) := by
  simp [fraction?, takeDigits_append hdigits stops, some]

theorem fraction?_eq_none_iff {cs : List Char} :
    fraction? cs = some (none, rest) ↔ rest = cs ∧ ∀ c ∈ cs.head?, c ≠ '.' := by
  unfold fraction?
  split
  · next cs =>
    simp only [List.head?_cons, Option.mem_some_iff, forall_eq', ne_eq, not_true_eq_false,
      and_false, iff_false]
    split <;> simp
  · next other =>
    rw [Option.some.injEq, Prod.mk.injEq, eq_self, true_and, eq_comm, iff_self_and]
    rintro - c hc rfl
    obtain ⟨cs', h⟩ := List.head?_eq_some_iff.mp hc
    exact other cs' h

theorem exponent?_eq_none_iff {cs : List Char} :
    exponent? cs = some (none, rest) ↔ rest = cs ∧ ∀ c ∈ cs.head?, c ≠ 'e' ∧ c ≠ 'E' := by
  cases cs with
  | nil => simp [exponent?, eq_comm]
  | cons c cs =>
    unfold exponent?
    by_cases letter : c = 'e' ∨ c = 'E'
    · rcases letter with rfl | rfl <;> simp
    · simp [not_or.mp letter, eq_comm]

theorem Ends.fraction?_eq_none (ends : Ends rest) : fraction? rest = some (none, rest) :=
  fraction?_eq_none_iff.mpr ⟨rfl, fun c hc => (ends c hc).2.1⟩

theorem Ends.exponent?_eq_none (ends : Ends rest) : exponent? rest = some (none, rest) :=
  exponent?_eq_none_iff.mpr ⟨rfl, fun c hc => (ends c hc).2.2⟩

def exponentChars (e : Int) : List Char :=
  'e' :: ((if e < 0 then ['-'] else ['+']) ++ decimal e.natAbs)

theorem exponent?_chars (e : Int) (stops : Stops rest) :
    exponent? (exponentChars e ++ rest) = some (some e, rest) := by
  have hdigits := @takeDigits_append _ _ (fun c => @isDigit_of_mem_decimal e.natAbs c) stops
  have hsome : (decimal e.natAbs).isEmpty = false := by simpa using decimal_ne_nil e.natAbs
  unfold exponentChars
  split
  · next negative =>
    have hvalue : -(e.natAbs : Int) = e := by omega
    simp [exponent?, hdigits, hsome, valueOfDigits_decimal, hvalue, -Nat.cast_natAbs]
  · next nonneg =>
    have hvalue : (e.natAbs : Int) = e := by omega
    simp [exponent?, hdigits, hsome, valueOfDigits_decimal, hvalue, -Nat.cast_natAbs]

theorem number?_parts {negative : Bool} {after : List Char} {fraction : Option (List Char)}
    {exponent : Option Int} (whole : Whole digits) (stops : Stops tail)
    (hfraction : fraction? tail = some (fraction, after))
    (hexponent : exponent? after = some (exponent, rest)) :
    number? (minus negative (digits ++ tail)) =
      if fraction = none ∧ exponent = none then some (.ofDigits negative digits, rest)
      else some (.real (.ofDecimal negative (valueOfDigits (digits ++ fraction.getD []))
        (exponent.getD 0 - (fraction.getD []).length)), rest) := by
  have hleading : ¬ (1 < digits.length ∧ digits.head? = some '0') := by
    rintro ⟨more, zero⟩
    rcases whole.leading with one | first
    · omega
    · exact first zero
  have hdigits := takeDigits_append whole.digits stops
  cases negative with
  | true => simp [number?, minus, hdigits, hleading, whole.some, hfraction, hexponent]
  | false =>
    obtain ⟨c, cs, rfl⟩ := List.exists_cons_of_ne_nil whole.some
    have hc : c ≠ '-' := by
      rintro rfl
      exact absurd (whole.digits '-' List.mem_cons_self) (by decide)
    rw [List.cons_append] at hdigits ⊢
    simp only [number?, minus]
    simp [hc, hdigits, hfraction, hexponent]
    intro more zero
    exact absurd ⟨by simpa using more, by simp [zero]⟩ hleading

theorem number?_cases {cs : List Char} {n : Number} (h : number? cs = some (n, rest)) :
    ∃ negative digits tail after fraction exponent, cs = minus negative (digits ++ tail) ∧
      Whole digits ∧ Stops tail ∧ fraction? tail = some (fraction, after) ∧
      exponent? after = some (exponent, rest) := by
  unfold number? at h
  split at h
  next negative cs' hsign =>
  have hcs : cs = minus negative cs' := by
    split at hsign <;> (cases hsign; rfl)
  simp only [takeDigits, gt_iff_lt, Bool.or_eq_true, Bool.and_eq_true, decide_eq_true_eq,
    List.isEmpty_iff, beq_iff_eq] at h
  split at h
  · cases h
  · next hwhole =>
    obtain ⟨some, leading⟩ := not_or.mp hwhole
    obtain ⟨⟨fraction, after⟩, hfraction, h⟩ := Option.bind_eq_some_iff.mp h
    obtain ⟨⟨exponent, rest'⟩, hexponent, h⟩ := Option.bind_eq_some_iff.mp h
    have hrest : rest' = rest := by
      simp only at h
      split at h <;> (cases h; rfl)
    subst hrest
    refine ⟨negative, cs'.takeWhile isDigit, cs'.dropWhile isDigit, after, fraction, exponent, ?_,
      ⟨some, ?_, ?_⟩, stops_dropWhile cs', hfraction, hexponent⟩
    · rw [List.takeWhile_append_dropWhile, hcs]
    · exact fun c hc => List.mem_takeWhile_imp hc
    · by_contra hother
      obtain ⟨more, zero⟩ := not_or.mp hother
      have hlength := List.length_pos_of_ne_nil some
      exact leading ⟨by omega, not_not.mp zero⟩

/-! ## Whole numbers -/

theorem whole_decimal (n : Nat) : Whole (decimal n) where
  some := decimal_ne_nil n
  digits := fun _ => isDigit_of_mem_decimal
  leading := by
    rcases Nat.eq_zero_or_pos n with rfl | pos
    · left
      rw [decimal_zero, List.length_singleton]
    · exact .inr (head?_decimal pos)

theorem number?_decimal {negative : Bool} (n : Nat) (ends : Ends rest) :
    number? (minus negative (decimal n ++ rest)) =
      some (.ofDigits negative (decimal n), rest) := by
  rw [number?_parts (whole_decimal n) ends.stops ends.fraction?_eq_none ends.exponent?_eq_none]
  simp

theorem ofDigits_eq_beyond {negative : Bool} {n : UInt64} :
    Number.ofDigits negative digits = .beyond n ↔
      negative = false ∧ valueOfDigits digits = n.toNat ∧ 2 ^ 63 ≤ n.toNat := by
  have hn := n.toNat_lt
  unfold Number.ofDigits Word.holdsSigned Word.holds
  generalize valueOfDigits digits = k
  cases negative with
  | true =>
    simp only [if_true, Bool.true_eq_false, false_and, iff_false]
    split <;> simp
  | false =>
    simp only [Bool.false_eq_true, if_false, true_and]
    constructor
    · intro h
      split at h
      · cases h
      · split at h
        · next hsigned hfits =>
          simp at hsigned hfits
          cases h
          rw [UInt64.toNat_ofNat_of_lt' (by simpa using hfits)]
          omega
        · cases h
    · rintro ⟨rfl, hsigned⟩
      rw [if_neg (by simp; omega), if_pos (by simp; omega), UInt64.ofNat_toNat]

theorem ofDigits_whole (n : Int64) :
    Number.ofDigits (n.toInt < 0) (decimal n.toInt.natAbs) = .whole n := by
  have hlow := n.le_toInt
  have hhigh := n.toInt_lt
  unfold Number.ofDigits Word.holdsSigned Word.holds
  rw [valueOfDigits_decimal]
  by_cases negative : n.toInt < 0
  · have hvalue : -(n.toInt.natAbs : Int) = n.toInt := by omega
    simp only [negative, decide_true, if_true]
    rw [if_neg (by simp; omega), hvalue, Int64.ofInt_toInt]
  · have hvalue : (n.toInt.natAbs : Int) = n.toInt := by omega
    simp only [negative, decide_false, Bool.false_eq_true, if_false]
    rw [← Int64.ofInt_eq_ofNat, hvalue, if_pos (by simp; omega), Int64.ofInt_toInt]

theorem number?_whole (n : Int64) (ends : Ends rest) :
    number? (signed n.toInt ++ rest) = some (.whole n, rest) := by
  have hsigned : signed n.toInt ++ rest =
      minus (n.toInt < 0) (decimal n.toInt.natAbs ++ rest) := by
    unfold signed minus
    by_cases negative : n.toInt < 0 <;> simp [negative]
  rw [hsigned, number?_decimal _ ends, ofDigits_whole]

/-- Large whole numbers are told from others by how they are written. -/
theorem number?_eq_beyond_iff {cs : List Char} {n : UInt64} :
    number? cs = some (.beyond n, rest) ↔
      ∃ digits, cs = digits ++ rest ∧ Whole digits ∧ Ends rest ∧
        valueOfDigits digits = n.toNat ∧ 2 ^ 63 ≤ n.toNat := by
  constructor
  · intro h
    obtain ⟨negative, digits, tail, after, fraction, exponent, rfl, whole, stops, hfraction,
      hexponent⟩ := number?_cases h
    rw [number?_parts whole stops hfraction hexponent] at h
    split at h
    · next hnone =>
      obtain ⟨rfl, rfl⟩ := hnone
      obtain ⟨rfl, hpoint⟩ := fraction?_eq_none_iff.mp hfraction
      obtain ⟨rfl, hletter⟩ := exponent?_eq_none_iff.mp hexponent
      obtain ⟨hnumber, -⟩ := Prod.mk.inj (Option.some.inj h)
      obtain ⟨rfl, value, large⟩ := ofDigits_eq_beyond.mp hnumber
      exact ⟨digits, rfl, whole, fun c hc => ⟨stops c hc, hpoint c hc, hletter c hc⟩, value, large⟩
    · cases h
  · rintro ⟨digits, rfl, whole, ends, value, large⟩
    have hread := @number?_parts _ _ _ false _ _ _ whole ends.stops ends.fraction?_eq_none
      ends.exponent?_eq_none
    rw [if_pos ⟨rfl, rfl⟩, ofDigits_eq_beyond.mpr ⟨rfl, value, large⟩] at hread
    exact hread

theorem number?_beyond {n : UInt64} (large : 2 ^ 63 ≤ n.toNat) (ends : Ends rest) :
    number? (decimal n.toNat ++ rest) = some (.beyond n, rest) :=
  number?_eq_beyond_iff.mpr
    ⟨_, rfl, whole_decimal n.toNat, ends, valueOfDigits_decimal n.toNat, large⟩

/-! ## Doubles -/

theorem isDigit_of_mem_zeros {k : Nat} {c : Char} (h : c ∈ List.replicate k '0') :
    isDigit c = true := by
  rw [List.eq_of_mem_replicate h]
  rfl

/-- Digits with a point in them are a number, up to zeros behind its digits. -/
def Points (cs : List Char) (d : Nat) (e : Int) : Prop :=
  ∃ whole places, cs = whole ++ '.' :: places ∧ Whole whole ∧ places ≠ [] ∧
    (∀ c ∈ places, isDigit c = true) ∧
    ∃ k : Nat, valueOfDigits (whole ++ places) = d * 10 ^ k ∧ -(places.length : Int) = e - k

theorem points_front (some : digits ≠ []) (hdigits : ∀ c ∈ digits, isDigit c = true) (k : Nat) :
    Points ('0' :: '.' :: (List.replicate k '0' ++ digits)) (valueOfDigits digits)
      (-k - digits.length) := by
  refine ⟨['0'], List.replicate k '0' ++ digits, rfl, ?_, by simp [some], ?_, 0, ?_, ?_⟩
  · exact ⟨by simp, by simp; rfl, .inl rfl⟩
  · intro c hc
    rcases List.mem_append.mp hc with hc | hc
    · exact isDigit_of_mem_zeros hc
    · exact hdigits c hc
  · have hzero : valueOfDigits ['0'] = 0 := rfl
    rw [valueOfDigits_append, valueOfDigits_append, valueOfDigits_zeros, hzero]
    simp
  · simp
    omega

theorem points_behind (whole : Whole digits) (more : digits.head? ≠ some '0') (k : Nat) :
    Points (digits ++ List.replicate k '0' ++ ['.', '0']) (valueOfDigits digits) k := by
  refine ⟨digits ++ List.replicate k '0', ['0'], rfl, ?_, by simp, by simp; rfl, k + 1, ?_, ?_⟩
  · refine ⟨by simp [whole.some], ?_, .inr ?_⟩
    · intro c hc
      rcases List.mem_append.mp hc with hc | hc
      · exact whole.digits c hc
      · exact isDigit_of_mem_zeros hc
    · rwa [List.head?_append_of_ne_nil _ whole.some]
  · rw [List.append_assoc, ← List.replicate_succ', valueOfDigits_append, valueOfDigits_zeros]
    simp
  · simp

theorem points_among {places : List Char} (whole : Whole digits) (some : places ≠ [])
    (hplaces : ∀ c ∈ places, isDigit c = true) :
    Points (digits ++ '.' :: places) (valueOfDigits (digits ++ places)) (-places.length) :=
  ⟨digits, places, rfl, whole, some, hplaces, 0, by simp, by simp⟩

theorem points_layout {d : Nat} (pos : 0 < d) (n : Int) :
    Points (Layout.point true (decimal d) n) d (n - (decimal d).length) := by
  have hsome := decimal_ne_nil d
  have hdigits (c : Char) (hc : c ∈ decimal d) : isDigit c = true := isDigit_of_mem_decimal hc
  have hhead := head?_decimal pos
  have hvalue := valueOfDigits_decimal d
  unfold Layout.point
  split
  · next front =>
    have hfront := points_front hsome hdigits (-n).toNat
    have hexponent : -((-n).toNat : Int) - (decimal d).length = n - (decimal d).length := by omega
    rwa [hvalue, hexponent] at hfront
  · next behind =>
    obtain ⟨k, rfl⟩ : ∃ k : Nat, n = k := ⟨n.toNat, by omega⟩
    simp only [Int.toNat_natCast, if_true]
    by_cases short : (decimal d).length ≤ k
    · have hbehind := points_behind (whole_decimal d) hhead (k - (decimal d).length)
      rw [hvalue, Nat.cast_sub short] at hbehind
      simpa [List.take_of_length_le short, List.drop_of_length_le short] using hbehind
    · have hwhole : Whole ((decimal d).take k) := by
        refine ⟨?_, fun c hc => hdigits c (List.mem_of_mem_take hc), .inr ?_⟩
        · simp [hsome]
          omega
        · rwa [List.head?_take, if_neg (by omega)]
      have hplaces : (decimal d).drop k ≠ [] := by simpa using short
      have hzeros : k - (decimal d).length = 0 := by omega
      have hlength : -(((decimal d).drop k).length : Int) = k - (decimal d).length := by
        rw [List.length_drop]
        omega
      have hamong := points_among hwhole hplaces fun c hc => hdigits c (List.mem_of_mem_drop hc)
      rw [List.take_append_drop, hvalue, hlength] at hamong
      simpa [hplaces, hzeros, short] using hamong

theorem number?_point {negative : Bool} {places : List Char} (whole : Whole digits)
    (some : places ≠ []) (hplaces : ∀ c ∈ places, isDigit c = true) (ends : Ends rest) :
    number? (minus negative (digits ++ '.' :: places ++ rest)) =
      .some (.real (.ofDecimal negative (valueOfDigits (digits ++ places)) (-places.length)),
        rest) := by
  have hfraction := fraction?_point some hplaces ends.stops
  have hstops : Stops ('.' :: (places ++ rest)) := by
    rintro _ ⟨⟩
    rfl
  rw [List.append_assoc, List.cons_append,
    number?_parts whole hstops hfraction ends.exponent?_eq_none]
  simp

/-- A token with an exponent is read as a double: the first digit is in front of the point, if there
are more of them. -/
theorem number?_exponent {negative : Bool} {first : Char} {others : List Char} {e : Int}
    (whole : Whole [first]) (hothers : ∀ c ∈ others, isDigit c = true) (stops : Stops rest) :
    number? (minus negative (Layout.point false (first :: others) 1 ++ exponentChars e ++ rest)) =
      some (.real (.ofDecimal negative (valueOfDigits (first :: others)) (e - others.length)),
        rest) := by
  have hexponent := exponent?_chars e stops
  have hletter : Stops (exponentChars e ++ rest) := by
    rintro _ ⟨⟩
    rfl
  have hpoint : Layout.point false (first :: others) 1 =
      [first] ++ if others = [] then [] else '.' :: others := by
    simp [Layout.point]
    split <;> simp
  rw [hpoint, List.append_assoc, List.append_assoc]
  by_cases hnone : others = []
  · subst hnone
    have hfraction :
        fraction? (exponentChars e ++ rest) = some (none, exponentChars e ++ rest) := by
      apply fraction?_eq_none_iff.mpr
      constructor
      · rfl
      · rintro _ ⟨⟩
        decide
    rw [if_pos rfl, List.nil_append, number?_parts whole hletter hfraction hexponent]
    simp
  · have hfraction := fraction?_point hnone hothers hletter
    have hstops : Stops ('.' :: (others ++ (exponentChars e ++ rest))) := by
      rintro _ ⟨⟩
      rfl
    have hassoc : '.' :: others ++ (exponentChars e ++ rest) =
        '.' :: (others ++ (exponentChars e ++ rest)) := rfl
    rw [if_neg hnone, hassoc, number?_parts whole hstops hfraction hexponent]
    simp

theorem unitsOf_mul_pow (d k : Nat) (e : ℤ) :
    Decimal.unitsOf (d * 10 ^ k) e = Decimal.unitsOf d (e + k) := by
  unfold Decimal.unitsOf
  rw [zpow_add₀ (by norm_num), zpow_natCast]
  push_cast
  ring

/-- The text of a decimal is read as a decimal of the same value. -/
theorem number?_layout {negative : Bool} (d : Decimal) (ends : Ends rest) :
    ∃ m e, number? (minus negative (realLayout.magnitude d ++ rest)) =
        some (.real (.ofDecimal negative m e), rest) ∧
      Decimal.unitsOf m e = Decimal.unitsOf d.digits d.exponent := by
  by_cases hzero : d.digits = 0
  · have hchars : realLayout.magnitude d = ['0'] ++ '.' :: ['0'] := by
      simp [Layout.magnitude, hzero, decimal_zero, realLayout, Layout.point]
    have hwhole : Whole ['0'] := ⟨by simp, by simp; rfl, .inl rfl⟩
    refine ⟨0, -1, ?_, ?_⟩
    · rw [hchars, number?_point hwhole (by simp) (by simp; rfl) ends]
      rfl
    · rw [hzero, Decimal.unitsOf_eq_mul, Decimal.unitsOf_eq_mul 0]
      simp
  · have pos : 0 < d.digits := Nat.pos_of_ne_zero hzero
    have hdigits (c : Char) (hc : c ∈ decimal d.digits) : isDigit c = true :=
      isDigit_of_mem_decimal hc
    generalize he : d.exponent + (decimal d.digits).length - 1 = e
    have hchars : realLayout.magnitude d =
        if realLayout.positional e then Layout.point true (decimal d.digits) (e + 1)
        else Layout.point false (decimal d.digits) 1 ++ exponentChars e := by
      have hwidth : padded realLayout.exponentWidth e.natAbs = decimal e.natAbs := padded_one _
      simp only [Layout.magnitude, if_neg hzero, he, hwidth]
      rfl
    rw [hchars]
    split
    · obtain ⟨whole, places, hpoint, hwhole, hsome, hplaces, k, hvalue, hexponent⟩ :=
        points_layout pos (e + 1)
      have hread := @number?_point _ _ negative _ hwhole hsome hplaces ends
      rw [← hpoint] at hread
      refine ⟨_, _, hread, ?_⟩
      rw [hvalue, unitsOf_mul_pow]
      congr 1
      omega
    · obtain ⟨first, others, hcons⟩ := List.exists_cons_of_ne_nil (decimal_ne_nil d.digits)
      have hvalue := valueOfDigits_decimal d.digits
      rw [hcons] at hvalue hdigits he ⊢
      have hwhole : Whole [first] :=
        ⟨by simp, by simpa using hdigits first List.mem_cons_self, .inl rfl⟩
      refine ⟨_, _, number?_exponent hwhole ?_ ends.stops, ?_⟩
      · exact fun c hc => hdigits c (List.mem_cons_of_mem _ hc)
      · rw [hvalue]
        congr 1
        simp only [List.length_cons] at he
        omega

theorem number?_real {x : Binary64} (finite : x.isFinite = true) (ends : Ends rest) :
    number? (Json.real x ++ rest) = some (.real x, rest) := by
  have hchars : Json.real x ++ rest =
      minus x.isNegative (realLayout.magnitude (.shortest .even x) ++ rest) := by
    unfold Json.real Layout.chars minus
    rw [if_pos finite]
    cases x.isNegative <;> rfl
  obtain ⟨m, e, hread, hvalue⟩ := @number?_layout _ x.isNegative (.shortest .even x) ends
  rw [hchars, hread, Decimal.ofDecimal_shortest finite hvalue]

/-- A number that is told from others by how it is written. -/
def Number.Plain : Number → Prop
  | .whole _ => True
  | .beyond n => 2 ^ 63 ≤ n.toNat
  | .real x => x.isFinite = true

theorem number?_chars {n : Number} (plain : n.Plain) (ends : Ends rest) :
    number? (n.chars ++ rest) = some (n, rest) := by
  cases n with
  | whole n => exact number?_whole n ends
  | beyond n => exact number?_beyond plain ends
  | real x => exact number?_real plain ends

end Json

end Relata
