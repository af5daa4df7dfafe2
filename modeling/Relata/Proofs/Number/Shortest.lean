import Relata.Proofs.Number.Rounding
import Mathlib.Algebra.Order.Field.Power
import Mathlib.Tactic.Positivity
import Mathlib.Tactic.FieldSimp
import Mathlib.Tactic.NormNum
import Mathlib.Tactic.Ring

/-! # Shortest decimals read back

The digits of a double are a number in its interval, and every decimal of that number is read as
the double again, however many zeros it is written with.
-/

namespace Relata

/-! ### Powers of ten and of two -/

theorem pow_le_pow_of_proportion {a b p q m n : Nat} (h : a ^ p ≤ b ^ q) (some : 0 < b)
    (pos : 0 < p) (proportion : m * q ≤ n * p) : a ^ m ≤ b ^ n := by
  apply (Nat.pow_le_pow_iff_left pos.ne').mp
  calc
    (a ^ m) ^ p = (a ^ p) ^ m := by rw [← Nat.pow_mul, ← Nat.pow_mul, Nat.mul_comm]
    _ ≤ (b ^ q) ^ m := Nat.pow_le_pow_left h m
    _ = b ^ (m * q) := by rw [← Nat.pow_mul, Nat.mul_comm]
    _ ≤ b ^ (n * p) := Nat.pow_le_pow_right some proportion
    _ = (b ^ n) ^ p := Nat.pow_mul b n p

theorem ten_zpow_le_two_zpow {a e : ℤ} (h : 100000 * e ≤ 30103 * a) (low : -2000 ≤ a)
    (high : a ≤ 2000) : (10 : ℚ) ^ (e - 1) ≤ 2 ^ a := by
  rcases le_or_gt 0 a with ha | ha
  · obtain ⟨n, rfl⟩ := Int.eq_ofNat_of_zero_le ha
    rcases le_or_gt (e - 1) 0 with he | he
    · calc
        (10 : ℚ) ^ (e - 1) ≤ 10 ^ (0 : ℤ) := zpow_le_zpow_right₀ (by norm_num) he
        _ = 2 ^ (0 : ℤ) := by simp
        _ ≤ 2 ^ (n : ℤ) := zpow_le_zpow_right₀ (by norm_num) ha
    · obtain ⟨t, ht⟩ := Int.eq_ofNat_of_zero_le he.le
      rw [ht, zpow_natCast, zpow_natCast]
      have hpow : 10 ^ t ≤ 2 ^ n :=
        pow_le_pow_of_proportion (show 10 ^ 59 ≤ 2 ^ 196 by norm_num) (by omega) (by omega)
          (by omega)
      exact_mod_cast hpow
  · obtain ⟨n, rfl⟩ : ∃ n : ℕ, a = -n := ⟨(-a).toNat, by omega⟩
    obtain ⟨t, ht⟩ : ∃ t : ℕ, e - 1 = -t := ⟨(1 - e).toNat, by omega⟩
    have hpow : 2 ^ n ≤ 10 ^ t :=
      pow_le_pow_of_proportion (show 2 ^ 93 ≤ 10 ^ 28 by norm_num) (by omega) (by omega) (by omega)
    rw [ht, zpow_neg, zpow_neg, zpow_natCast, zpow_natCast]
    have hpos : (0 : ℚ) < 2 ^ n := by positivity
    apply inv_anti₀ hpos
    exact_mod_cast hpow

theorem one_shiftLeft_mul (m n : Nat) : 1 <<< (m + n) = 1 <<< m * 1 <<< n := by
  rw [Binary64.one_shiftLeft_add, Nat.one_shiftLeft m]

theorem one_shiftLeft_le {m n : Nat} (h : m ≤ n) : 1 <<< m ≤ 1 <<< n := by
  rw [Nat.one_shiftLeft, Nat.one_shiftLeft]
  exact Nat.pow_le_pow_right (by decide) h

theorem one_shiftLeft_le_ten_pow {m n : Nat} (h : m ≤ n * 3) : 1 <<< m ≤ 10 ^ n := by
  rw [Nat.one_shiftLeft]
  exact pow_le_pow_of_proportion (show 2 ^ 3 ≤ 10 ^ 1 by decide) (by decide) (by decide) (by omega)

theorem cast_le_ten_pow {a n : Nat} (h : a ≤ 10 ^ n) : (a : ℚ) ≤ 10 ^ n := by
  exact_mod_cast h

theorem cast_one_shiftLeft (n : Nat) : ((1 <<< n : Nat) : ℚ) = 2 ^ n := by
  rw [Nat.one_shiftLeft]
  push_cast
  rfl

theorem log2_lt_of_lt {u n : Nat} (h : u < 1 <<< n) (some : u ≠ 0) : Nat.log2 u < n := by
  rw [Nat.log2_lt some, ← Nat.one_shiftLeft]
  exact h

theorem Binary64.units_eq_zero_iff {x : Binary64} : x.units = 0 ↔ x.magnitude = 0 := by
  constructor
  · intro h
    exact magnitude_eq_of_units_eq (h.trans (show 0 = zero.units by decide))
  · intro h
    rw [units_of_lt (by rw [h]; decide), h]

/-! ### Grids -/

namespace Decimal

open Binary64

def unitsOf (m : Nat) (e : ℤ) : ℚ :=
  m * (10 ^ e * unit)

theorem unitsOf_one_pos (e : ℤ) : 0 < unitsOf 1 e := by
  have hunit : (0 : ℚ) < unit := by exact_mod_cast unit_pos
  unfold unitsOf
  positivity

theorem unitsOf_eq_mul (m : Nat) (e : ℤ) : unitsOf m e = m * unitsOf 1 e := by
  unfold unitsOf
  simp

theorem unitsOf_mul (m n : Nat) (e : ℤ) : unitsOf (m * n) e = m * unitsOf n e := by
  unfold unitsOf
  push_cast
  ring

theorem onGrid_snd (num num' : Nat) (p : ℤ) : (onGrid num p).2 = (onGrid num' p).2 := by
  unfold onGrid
  split <;> rfl

theorem onGrid_pos (num : Nat) (p : ℤ) : 0 < (onGrid num p).2 := by
  unfold onGrid
  split
  · exact Nat.mul_pos unit_pos (Nat.pow_pos (by decide))
  · exact unit_pos

theorem onGrid_eq (num : Nat) (p : ℤ) :
    ((onGrid num p).1 : ℚ) * (10 ^ p * unit) = num * (onGrid num p).2 := by
  unfold onGrid
  rcases le_or_gt 0 p with hp | hp
  · obtain ⟨n, rfl⟩ := Int.eq_ofNat_of_zero_le hp
    rw [if_pos hp]
    simp [mul_comm]
  · obtain ⟨n, rfl⟩ : ∃ n : ℕ, p = -n := ⟨(-p).toNat, by omega⟩
    rw [if_neg (by omega)]
    simp
    field_simp

variable {num m : Nat} {p : ℤ}

theorem le_onGrid_iff : m * (onGrid num p).2 ≤ (onGrid num p).1 ↔ unitsOf m p ≤ num := by
  have hstep : (0 : ℚ) < 10 ^ p * unit := by simpa [unitsOf] using unitsOf_one_pos p
  have hden : (0 : ℚ) < (onGrid num p).2 := by exact_mod_cast onGrid_pos num p
  unfold unitsOf
  rw [← mul_le_mul_iff_left₀ hden, ← onGrid_eq, mul_right_comm, mul_le_mul_iff_left₀ hstep]
  exact_mod_cast Iff.rfl

theorem onGrid_le_iff : (onGrid num p).1 ≤ m * (onGrid num p).2 ↔ (num : ℚ) ≤ unitsOf m p := by
  have hstep : (0 : ℚ) < 10 ^ p * unit := by simpa [unitsOf] using unitsOf_one_pos p
  have hden : (0 : ℚ) < (onGrid num p).2 := by exact_mod_cast onGrid_pos num p
  unfold unitsOf
  rw [← mul_le_mul_iff_left₀ hden, ← onGrid_eq, mul_right_comm, mul_le_mul_iff_left₀ hstep]
  exact_mod_cast Iff.rfl

theorem contains_iff {i : Interval} {d : Nat} : i.contains d p = true ↔ i.Spans (unitsOf d p) := by
  have htwice : unitsOf (2 * d) p = 2 * unitsOf d p := by exact_mod_cast unitsOf_mul 2 d p
  have hlow : (onGrid i.low p).1 ≤ 2 * d * (onGrid i.low p).2 ↔ (i.low : ℚ) ≤ 2 * unitsOf d p := by
    rw [onGrid_le_iff, htwice]
  have hhigh : 2 * d * (onGrid i.low p).2 ≤ (onGrid i.high p).1 ↔ 2 * unitsOf d p ≤ i.high := by
    rw [onGrid_snd i.low i.high, le_onGrid_iff, htwice]
  have hlow' : (onGrid i.low p).1 < 2 * d * (onGrid i.low p).2 ↔ (i.low : ℚ) < 2 * unitsOf d p := by
    rw [← not_le, ← not_le, le_onGrid_iff, htwice]
  have hhigh' : 2 * d * (onGrid i.low p).2 < (onGrid i.high p).1 ↔ 2 * unitsOf d p < i.high := by
    rw [← not_le, ← not_le, onGrid_snd i.low i.high, onGrid_le_iff, htwice]
  unfold Interval.contains
  cases hclosed : i.closed with
  | true =>
    simp only [if_true, Bool.and_eq_true, decide_eq_true_eq, hlow, hhigh]
    constructor
    · rintro ⟨low, high⟩
      exact ⟨low, high, by simp [hclosed]⟩
    · rintro ⟨low, high, -⟩
      exact ⟨low, high⟩
  | false =>
    simp only [Bool.false_eq_true, if_false, Bool.and_eq_true, decide_eq_true_eq, hlow', hhigh']
    constructor
    · rintro ⟨low, high⟩
      exact Interval.spans_of_lt low high
    · rintro ⟨-, -, inner⟩
      exact inner hclosed

/-! ### The grid of a result -/

variable {tie : Tie} {i : Interval} {u : Nat}

theorem contains_of_nearest? {d : Nat} (h : nearest? tie i u p = some d) :
    i.contains d p = true := by
  unfold nearest? at h
  simp only [] at h
  generalize (onGrid u p).1 / (onGrid u p).2 = q at h
  split at h
  · next hboth =>
    obtain ⟨hlower, hupper⟩ := (Bool.and_eq_true _ _).mp hboth
    have heven : q + q % 2 = q ∨ q + q % 2 = q + 1 := by omega
    split at h
    · cases h
      exact hlower
    · split at h
      · cases tie with
        | even =>
          cases h
          rcases heven with heq | heq <;> rwa [heq]
        | up =>
          cases h
          exact hupper
      · cases h
        exact hupper
  · split at h
    · cases h
      assumption
    · split at h
      · cases h
        assumption
      · cases h

theorem exists_nearest?
    (h : i.contains ((onGrid u p).1 / (onGrid u p).2) p = true ∨
      i.contains ((onGrid u p).1 / (onGrid u p).2 + 1) p = true) :
    ∃ d, nearest? tie i u p = some d := by
  unfold nearest?
  simp only []
  generalize (onGrid u p).1 / (onGrid u p).2 = q at h ⊢
  split
  · split
    · exact ⟨_, rfl⟩
    · split
      · cases tie <;> exact ⟨_, rfl⟩
      · exact ⟨_, rfl⟩
  · rcases h with h | h
    · rw [if_pos h]
      exact ⟨_, rfl⟩
    · split <;> exact ⟨_, rfl⟩

theorem contains_search {e : ℤ} {n fuel : Nat}
    (h : ∃ n', n ≤ n' ∧ n' < n + fuel ∧ ∃ d, nearest? tie i u (e + 1 - n') = some d) :
    i.contains (search tie i u e n fuel).digits (search tie i u e n fuel).exponent = true := by
  induction fuel generalizing n with
  | zero =>
    obtain ⟨n', low, high, -⟩ := h
    omega
  | succ fuel ih =>
    rw [search]
    cases hnear : nearest? tie i u (e + 1 - n) with
    | some d => exact contains_of_nearest? hnear
    | none =>
      obtain ⟨n', low, high, d, hd⟩ := h
      apply ih
      refine ⟨n', ?_, by omega, d, hd⟩
      rcases Nat.lt_or_eq_of_le low with less | rfl
      · exact less
      · rw [hnear] at hd
        cases hd

/-- The grid of seventeen digits has a point in the interval of a number, next to the number. -/
theorem spans_of_grid {e : ℤ} (some : 0 < m) (finite : m < infinityBits)
    (reaches : unitsOf 1 e ≤ (ofMagnitude false m).units) {d : Nat}
    (low : unitsOf d (e - 16) ≤ (ofMagnitude false m).units)
    (high : ((ofMagnitude false m).units : ℚ) < unitsOf (d + 1) (e - 16)) :
    (Interval.of m).Spans (unitsOf d (e - 16)) ∨
      (Interval.of m).Spans (unitsOf (d + 1) (e - 16)) := by
  obtain ⟨hlow, hhigh, hwide⟩ := Interval.of_wide some finite
  have hlow : ((Interval.of m).low : ℚ) < 2 * (ofMagnitude false m).units := by exact_mod_cast hlow
  have hhigh : 2 * ((ofMagnitude false m).units : ℚ) < (Interval.of m).high := by
    exact_mod_cast hhigh
  have hwide : 2 * ((ofMagnitude false m).units : ℚ) + 10 ^ 16 * (Interval.of m).low <
      10 ^ 16 * (Interval.of m).high := by exact_mod_cast hwide
  have hstep : unitsOf 1 e = 10 ^ 16 * unitsOf 1 (e - 16) := by
    unfold unitsOf
    rw [zpow_sub₀ (by norm_num)]
    norm_num
    ring
  have hnext : unitsOf (d + 1) (e - 16) = unitsOf d (e - 16) + unitsOf 1 (e - 16) := by
    rw [unitsOf_eq_mul, unitsOf_eq_mul d]
    push_cast
    ring
  rw [hstep] at reaches
  by_cases hspans : ((Interval.of m).low : ℚ) < 2 * unitsOf d (e - 16)
  · left
    have habove : 2 * unitsOf d (e - 16) < (Interval.of m).high := by linarith
    exact Interval.spans_of_lt hspans habove
  · right
    rw [hnext] at high ⊢
    have hbelow : ((Interval.of m).low : ℚ) < 2 * (unitsOf d (e - 16) + unitsOf 1 (e - 16)) := by
      linarith
    have habove : 2 * (unitsOf d (e - 16) + unitsOf 1 (e - 16)) < (Interval.of m).high := by
      linarith
    exact Interval.spans_of_lt hbelow habove

theorem reaches_iff {e : ℤ} : leading.reaches u e = true ↔ unitsOf 1 e ≤ u := by
  have h := @le_onGrid_iff u 1 e
  rw [Nat.one_mul] at h
  simpa [leading.reaches] using h

theorem unitsOf_leading (some : 0 < u) (bound : Nat.log2 u ≤ 3000) : unitsOf 1 (leading u) ≤ u := by
  unfold leading
  simp only []
  split
  · next h => exact reaches_iff.mp h
  · split
    · next h => exact reaches_iff.mp h
    · generalize he : ((Nat.log2 u : ℤ) - 1074) * 30103 / 100000 = e
      have hest : (10 : ℚ) ^ (e - 1) ≤ 2 ^ ((Nat.log2 u : ℤ) - 1074) :=
        ten_zpow_le_two_zpow (by omega) (by omega) (by omega)
      have hlog : 2 ^ Nat.log2 u ≤ u := Nat.log2_self_le some.ne'
      calc
        unitsOf 1 (e - 1) = 10 ^ (e - 1) * unit := by simp [unitsOf]
        _ ≤ 2 ^ ((Nat.log2 u : ℤ) - 1074) * unit :=
          mul_le_mul_of_nonneg_right hest (Nat.cast_nonneg unit)
        _ = 2 ^ (Nat.log2 u : ℤ) := by
          rw [unit, cast_one_shiftLeft, ← zpow_natCast, ← zpow_add₀ (by norm_num)]
          simp
        _ ≤ u := by
          rw [zpow_natCast]
          exact_mod_cast hlog

/-! ### Reading decimals -/

theorem unitsOf_trimmed (d : Nat) (e : ℤ) :
    unitsOf (trimmed d e).digits (trimmed d e).exponent = unitsOf d e := by
  fun_induction trimmed d e with
  | case1 d e h ih =>
    obtain ⟨q, rfl⟩ : ∃ q, d = q * 10 := ⟨d / 10, by omega⟩
    rw [ih, Nat.mul_div_cancel _ (by decide)]
    unfold unitsOf
    rw [zpow_add_one₀ (by norm_num)]
    push_cast
    ring
  | case2 d e h => rfl

/-- A decimal that is not cut before its power is taken is one quotient of units. -/
theorem ofDecimal_eq {e : ℤ} (negative : Bool) (some : m ≠ 0)
    (low : (10 : ℚ) ^ (-400 : ℤ) ≤ m * 10 ^ e) (high : (m : ℚ) * 10 ^ e < 10 ^ (401 : ℤ)) :
    ∃ num den : Nat, 0 < den ∧ (num / den : ℚ) = unitsOf m e ∧
      ofDecimal negative m e = ofUnits negative num den := by
  have hten : (0 : ℚ) < 10 ^ e := by positivity
  have hlog : 2 ^ Nat.log2 m ≤ m := Nat.log2_self_le some
  have hlog' : m < 2 ^ (Nat.log2 m + 1) := Nat.lt_log2_self
  have habove : ¬ (Nat.log2 m : ℤ) * 3 / 10 + e > 400 := by
    intro h
    have hpow : 10 ^ (Nat.log2 m * 3 / 10) ≤ 2 ^ Nat.log2 m :=
      pow_le_pow_of_proportion (show 10 ^ 3 ≤ 2 ^ 10 by decide) (by decide) (by decide) (by omega)
    have hm : (10 : ℚ) ^ (Nat.log2 m * 3 / 10) ≤ m := by exact_mod_cast hpow.trans hlog
    have hle : (10 : ℚ) ^ (401 : ℤ) ≤ m * 10 ^ e := by
      calc
        (10 : ℚ) ^ (401 : ℤ) ≤ 10 ^ (((Nat.log2 m * 3 / 10 : ℕ) : ℤ) + e) :=
          zpow_le_zpow_right₀ (by norm_num) (by omega)
        _ = 10 ^ (Nat.log2 m * 3 / 10) * 10 ^ e := by
          rw [zpow_add₀ (by norm_num), zpow_natCast]
        _ ≤ m * 10 ^ e := mul_le_mul_of_nonneg_right hm hten.le
    exact absurd high (not_lt.mpr hle)
  have hbelow : ¬ (Nat.log2 m : ℤ) / 3 + e < -400 := by
    intro h
    have hpow : 2 ^ (Nat.log2 m + 1) ≤ 10 ^ (Nat.log2 m / 3 + 1) :=
      pow_le_pow_of_proportion (show 2 ^ 3 ≤ 10 ^ 1 by decide) (by decide) (by decide) (by omega)
    have hm : (m : ℚ) < 10 ^ (Nat.log2 m / 3 + 1) := by exact_mod_cast hlog'.trans_le hpow
    have hlt : (m : ℚ) * 10 ^ e < 10 ^ (-400 : ℤ) := by
      calc
        (m : ℚ) * 10 ^ e < 10 ^ (Nat.log2 m / 3 + 1) * 10 ^ e := mul_lt_mul_of_pos_right hm hten
        _ = 10 ^ (((Nat.log2 m / 3 + 1 : ℕ) : ℤ) + e) := by
          rw [zpow_add₀ (by norm_num), zpow_natCast]
        _ ≤ 10 ^ (-400 : ℤ) := zpow_le_zpow_right₀ (by norm_num) (by omega)
    exact absurd low (not_le.mpr hlt)
  unfold ofDecimal
  rw [if_neg some, if_neg habove, if_neg hbelow]
  rcases le_or_gt 0 e with he | he
  · obtain ⟨n, rfl⟩ := Int.eq_ofNat_of_zero_le he
    rw [if_pos he]
    refine ⟨_, _, Nat.one_pos, ?_, rfl⟩
    unfold unitsOf
    simp
    ring
  · obtain ⟨n, rfl⟩ : ∃ n : ℕ, e = -n := ⟨(-e).toNat, by omega⟩
    rw [if_neg (by omega)]
    refine ⟨_, _, Nat.pow_pos (by decide), ?_, rfl⟩
    unfold unitsOf
    simp
    ring

theorem one_le_low (some : 0 < m) (finite : m < infinityBits) : 1 ≤ (Interval.of m).low := by
  have hinf : infinityBits < 0x8000000000000000 := by decide
  have hself : (ofMagnitude false m).units ≠ 0 := by
    rw [ne_eq, units_eq_zero_iff, magnitude_ofMagnitude (by omega)]
    exact some.ne'
  simp only [Interval.of]
  omega

theorem high_lt (finite : m < infinityBits) : (Interval.of m).high < 2 * beyond := by
  have hinf : infinityBits = 2047 * binade := rfl
  have hbits : infinityBits < 0x8000000000000000 := by decide
  have hunits {m : Nat} (h : m ≤ infinityBits) : (ofMagnitude false m).units < beyond := by
    have hm := magnitude_ofMagnitude (show m < 0x8000000000000000 by omega) false
    have hexp : m / binade ≤ 2047 := by
      apply Nat.div_le_of_le_mul
      rwa [Nat.mul_comm, ← hinf]
    have hlt := units_lt (ofMagnitude false m)
    rw [hm] at hlt
    exact hlt.trans_le (one_shiftLeft_le (by omega))
  have hself := hunits finite.le
  have hnext : (ofMagnitude false (m + 1)).units < beyond := hunits finite
  simp only [Interval.of]
  omega

theorem bounds_of_spans {q : ℚ} (some : 0 < m) (finite : m < infinityBits)
    (h : (Interval.of m).Spans (q * unit)) : (10 : ℚ) ^ (-400 : ℤ) ≤ q ∧ q < 10 ^ (401 : ℤ) := by
  have hunit : (0 : ℚ) < unit := by exact_mod_cast unit_pos
  constructor
  · have htwice : 2 * unit = 1 <<< (1 + 1074) := (one_shiftLeft_mul 1 1074).symm
    have hcut : 2 * unit ≤ 10 ^ 400 := htwice ▸ one_shiftLeft_le_ten_pow (by decide)
    have hcut : ((2 * unit : Nat) : ℚ) ≤ 10 ^ 400 := cast_le_ten_pow hcut
    have hlow : (1 : ℚ) ≤ (Interval.of m).low := by exact_mod_cast one_le_low some finite
    have hone : 1 ≤ q * (2 * unit : Nat) := by
      have := h.low
      push_cast
      linarith
    have hq : 0 < q := by
      by_contra hneg
      have := mul_nonpos_of_nonpos_of_nonneg (not_lt.mp hneg) (Nat.cast_nonneg (2 * unit))
      linarith
    rw [zpow_neg, zpow_ofNat, inv_le_iff_one_le_mul₀ (by positivity)]
    exact hone.trans (mul_le_mul_of_nonneg_left hcut hq.le)
  · obtain ⟨bound, hbound, hbeyond⟩ : ∃ bound, bound ≤ 10 ^ 401 ∧ beyond = bound * unit :=
      ⟨1 <<< 1026, one_shiftLeft_le_ten_pow (by decide), one_shiftLeft_mul 1026 1074⟩
    have hbound : (bound : ℚ) ≤ 10 ^ 401 := cast_le_ten_pow hbound
    have hhigh : ((Interval.of m).high : ℚ) < 2 * (bound * unit) := by
      exact_mod_cast hbeyond ▸ high_lt finite
    have hlt : q * unit < bound * unit := by
      have := h.high
      linarith
    rw [zpow_ofNat]
    exact (lt_of_mul_lt_mul_right hlt hunit.le).trans_le hbound

/-- What the interval of a finite number spans is read as that number. -/
theorem ofDecimal_of_spans {e : ℤ} {x : Binary64} (some : x.magnitude ≠ 0)
    (finite : x.isFinite = true) (h : (Interval.of x.magnitude).Spans (unitsOf m e)) :
    ofDecimal x.isNegative m e = x := by
  have hmagnitude : x.magnitude < infinityBits := of_decide_eq_true finite
  have hunits : unitsOf m e = m * 10 ^ e * unit := by
    unfold unitsOf
    ring
  obtain ⟨low, high⟩ := bounds_of_spans (Nat.pos_of_ne_zero some) hmagnitude (hunits ▸ h)
  have hm : m ≠ 0 := by
    rintro rfl
    rw [Nat.cast_zero, zero_mul] at low
    exact absurd low (not_le.mpr (by positivity))
  obtain ⟨num, den, pos, hq, heq⟩ := ofDecimal_eq x.isNegative hm low high
  rw [heq, ofUnits, roundMagnitude_of_spans pos (Nat.pos_of_ne_zero some) hmagnitude (hq ▸ h),
    ofMagnitude_magnitude]

/-- The digits of a number other than zero are a number in its interval. -/
theorem spans_shortest {tie : Tie} {x : Binary64} (finite : x.isFinite = true)
    (some : x.units ≠ 0) :
    (Interval.of x.magnitude).Spans
      (unitsOf (shortest tie x).digits (shortest tie x).exponent) := by
  have hmagnitude : x.magnitude < infinityBits := of_decide_eq_true finite
  have hbits : x.magnitude < 0x8000000000000000 := Nat.mod_lt _ (by decide)
  have hunits : (ofMagnitude false x.magnitude).units = x.units := by
    unfold units
    rw [magnitude_ofMagnitude hbits]
  have hsome : 0 < x.magnitude := Nat.pos_of_ne_zero (mt units_eq_zero_iff.mpr some)
  have hlog : Nat.log2 x.units < 2100 := log2_lt_of_lt (units_lt_beyond finite) some
  have hreaches := unitsOf_leading (Nat.pos_of_ne_zero some) (by omega)
  rw [shortest, if_neg some]
  simp only [unitsOf_trimmed]
  rw [← contains_iff]
  apply contains_search
  refine ⟨17, by decide, by decide, exists_nearest? ?_⟩
  generalize leading x.units = e at *
  have hp : e + 1 - (17 : ℕ) = e - 16 := by omega
  rw [hp, contains_iff, contains_iff]
  have hden := onGrid_pos x.units (e - 16)
  rw [← hunits] at hreaches
  apply spans_of_grid hsome hmagnitude hreaches
  · rw [hunits, ← le_onGrid_iff]
    exact Nat.div_mul_le_self _ _
  · rw [hunits, ← not_le, ← le_onGrid_iff, not_le]
    exact Nat.lt_mul_of_div_lt (Nat.lt_succ_self _) hden

/-- The digits of a finite number are read as it again, as are other decimals of the same value. -/
theorem ofDecimal_shortest {tie : Tie} {x : Binary64} (finite : x.isFinite = true) {e : ℤ}
    (h : unitsOf m e = unitsOf (shortest tie x).digits (shortest tie x).exponent) :
    ofDecimal x.isNegative m e = x := by
  by_cases hzero : x.units = 0
  · have hmagnitude := units_eq_zero_iff.mp hzero
    have hm : m = 0 := by
      rw [shortest, if_pos hzero, unitsOf_eq_mul, unitsOf_eq_mul 0, Nat.cast_zero, zero_mul] at h
      simpa [(unitsOf_one_pos e).ne'] using h
    rw [ofDecimal, if_pos hm, ← hmagnitude, ofMagnitude_magnitude]
  · have hsome := mt units_eq_zero_iff.mpr hzero
    exact ofDecimal_of_spans hsome finite (h ▸ spans_shortest finite hzero)

end Decimal

end Relata
