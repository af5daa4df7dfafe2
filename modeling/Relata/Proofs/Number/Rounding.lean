import Relata.Number.Decimal
import Relata.Proofs.Number.Exact
import Mathlib.Tactic.Linarith

/-! # Rounding to the nearest double

A magnitude is a significand with an exponent, and its neighbours have the next significands. The
quotients that are rounded to it are those between the midpoints to its neighbours, and the
midpoints themselves if it is even.
-/

namespace Relata

namespace Binary64

/-! ### Numbers of given magnitudes -/

theorem magnitude_ofMagnitude {m : Nat} (h : m < 0x8000000000000000) (negative : Bool) :
    (ofMagnitude negative m).magnitude = m := by
  unfold magnitude ofMagnitude
  cases negative <;> simp <;> omega

theorem isNegative_ofMagnitude {m : Nat} (h : m < 0x8000000000000000) (negative : Bool) :
    (ofMagnitude negative m).isNegative = negative := by
  unfold isNegative ofMagnitude
  cases negative <;> simp <;> omega

theorem ofMagnitude_magnitude (x : Binary64) : ofMagnitude x.isNegative x.magnitude = x := by
  have h : x.magnitude < 0x8000000000000000 := Nat.mod_lt _ (by decide)
  exact eq_of_magnitude_eq (isNegative_ofMagnitude h _) (magnitude_ofMagnitude h _)

theorem units_of_significand {k n : Nat} (hn : n ≤ 2 * binade) (hk : k = 0 ∨ binade ≤ n)
    (h : k * binade + n < 0x8000000000000000) :
    (ofMagnitude false (k * binade + n)).units = n * 2 ^ k := by
  unfold units
  rw [magnitude_ofMagnitude h false]
  unfold binade at *
  rcases Nat.lt_or_ge n 0x10000000000000 with small | big
  · obtain rfl : k = 0 := by omega
    have hdiv : (0 * 0x10000000000000 + n) / 0x10000000000000 = 0 := by omega
    have hmod : (0 * 0x10000000000000 + n) % 0x10000000000000 = n := by omega
    simp only [hdiv, hmod]
    simp
  · rcases Nat.lt_or_eq_of_le hn with less | rfl
    · have hdiv : (k * 0x10000000000000 + n) / 0x10000000000000 = k + 1 := by omega
      have hmod : 0x10000000000000 + (k * 0x10000000000000 + n) % 0x10000000000000 = n := by omega
      simp only [hdiv, hmod, Nat.shiftLeft_eq]
      simp
    · have hdiv : (k * 0x10000000000000 + 2 * 0x10000000000000) / 0x10000000000000 = k + 2 := by
        omega
      have hmod : (k * 0x10000000000000 + 2 * 0x10000000000000) % 0x10000000000000 = 0 := by omega
      simp only [hdiv, hmod, Nat.shiftLeft_eq]
      simp [Nat.pow_succ]
      omega

theorem exists_significand (m : Nat) :
    ∃ k n, m = k * binade + n ∧ n < 2 * binade ∧ (k = 0 ∨ binade ≤ n) := by
  have hdiv : m / binade * binade + m % binade = m := Nat.div_add_mod' m binade
  have hmod : m % binade < binade := Nat.mod_lt _ (by decide)
  cases h : m / binade with
  | zero =>
    refine ⟨0, m, by omega, ?_, .inl rfl⟩
    rw [h] at hdiv
    omega
  | succ k =>
    refine ⟨k, binade + m % binade, ?_, by omega, .inr (by omega)⟩
    rw [h, Nat.succ_mul] at hdiv
    omega

/-! ### Quotients -/

/-- A quotient is rounded to the natural that is at most half of one off, and at both midpoints to
an even one. -/
theorem nearestEven_eq {num den n : Nat} (pos : 0 < den) (low : 2 * n * den ≤ 2 * num + den)
    (high : 2 * num ≤ (2 * n + 1) * den)
    (odd : n % 2 = 1 → 2 * n * den < 2 * num + den ∧ 2 * num < (2 * n + 1) * den) :
    nearestEven num den = n := by
  have hdiv : num / den * den + num % den = num := Nat.div_add_mod' num den
  have hmod : num % den < den := Nat.mod_lt _ pos
  unfold nearestEven
  generalize num / den = q at *
  generalize num % den = r at *
  have hq : q ≤ n := by
    by_contra hlt
    have h : (2 * n + 2) * den ≤ 2 * q * den := Nat.mul_le_mul_right den (by omega)
    nlinarith
  have hn : n ≤ q + 1 := by
    by_contra hlt
    have h : (2 * q + 4) * den ≤ 2 * n * den := Nat.mul_le_mul_right den (by omega)
    nlinarith
  rcases Nat.lt_or_eq_of_le hq with less | rfl
  · obtain rfl : n = q + 1 := by omega
    have hlow : den ≤ 2 * r := by nlinarith
    simp only []
    rw [if_neg (by omega)]
    by_cases htie : 2 * r = den
    · have heven : ¬ (q + 1) % 2 = 1 := by
        intro h
        have hlt := (odd h).1
        nlinarith
      rw [if_pos htie]
      omega
    · rw [if_neg htie]
  · have hhigh : 2 * r ≤ den := by nlinarith
    simp only []
    by_cases hless : 2 * r < den
    · rw [if_pos hless]
    · have htie : 2 * r = den := by omega
      have heven : ¬ q % 2 = 1 := by
        intro h
        have hlt := (odd h).2
        nlinarith
      rw [if_neg hless, if_pos htie]
      omega

theorem roundMagnitude_eq {k num den : Nat} (pos : 0 < den)
    (below : k = 0 ∨ binade * 2 ^ k * den ≤ num) (above : num < 2 * binade * 2 ^ k * den) :
    roundMagnitude num den = min (k * binade + nearestEven num (den * 2 ^ k)) infinityBits := by
  have hbinade : 2 ^ 52 = binade := rfl
  have hlog : Nat.log2 (num / den) - 52 = k := by
    have hlt : num / den < 2 ^ (k + 53) := by
      rw [Nat.div_lt_iff_lt_mul pos, Nat.pow_add]
      calc
        num < 2 * binade * 2 ^ k * den := above
        _ = 2 ^ k * 2 ^ 53 * den := by
          rw [Nat.mul_comm (2 * binade)]
          rfl
    have hle : Nat.log2 (num / den) ≤ k + 52 := by
      by_cases hzero : num / den = 0
      · simp [hzero]
      · have := (Nat.log2_lt hzero).mpr hlt
        omega
    rcases below with rfl | below
    · omega
    · have hge : 2 ^ (k + 52) ≤ num / den := by
        rw [Nat.le_div_iff_mul_le pos, Nat.pow_add, Nat.mul_comm (2 ^ k)]
        exact below
      have hne : num / den ≠ 0 := by
        have := Nat.two_pow_pos (k + 52)
        omega
      have := (Nat.le_log2 hne).mpr hge
      omega
  simp only [roundMagnitude, hlog, Nat.shiftLeft_eq]

end Binary64

/-! ### Intervals -/

namespace Decimal.Interval

open Binary64

/-- A number of units is between the ends of an interval, or at one that belongs to it. -/
structure Spans (i : Interval) (q : ℚ) : Prop where
  low : i.low ≤ 2 * q
  high : 2 * q ≤ i.high
  inner : i.closed = false → i.low < 2 * q ∧ 2 * q < i.high

theorem spans_of_lt {i : Interval} {q : ℚ} (low : i.low < 2 * q) (high : 2 * q < i.high) :
    i.Spans q :=
  ⟨low.le, high.le, fun _ => ⟨low, high⟩⟩

theorem spans_div_iff {i : Interval} {num den : Nat} (pos : 0 < den) :
    i.Spans (num / den) ↔ i.low * den ≤ 2 * num ∧ 2 * num ≤ i.high * den ∧
      (i.closed = false → i.low * den < 2 * num ∧ 2 * num < i.high * den) := by
  have hpos : (0 : ℚ) < den := by exact_mod_cast pos
  have hle (low : Nat) : (low : ℚ) ≤ 2 * (num / den) ↔ low * den ≤ 2 * num := by
    rw [← mul_div_assoc, le_div_iff₀ hpos]
    exact_mod_cast Iff.rfl
  have hge (high : Nat) : 2 * (num / den : ℚ) ≤ high ↔ 2 * num ≤ high * den := by
    rw [← mul_div_assoc, div_le_iff₀ hpos]
    exact_mod_cast Iff.rfl
  have hlt (low : Nat) : (low : ℚ) < 2 * (num / den) ↔ low * den < 2 * num := by
    rw [← mul_div_assoc, lt_div_iff₀ hpos]
    exact_mod_cast Iff.rfl
  have hgt (high : Nat) : 2 * (num / den : ℚ) < high ↔ 2 * num < high * den := by
    rw [← mul_div_assoc, div_lt_iff₀ hpos]
    exact_mod_cast Iff.rfl
  constructor
  · rintro ⟨low, high, inner⟩
    simp only [hle, hge, hlt, hgt] at low high inner
    exact ⟨low, high, inner⟩
  · rintro ⟨low, high, inner⟩
    constructor <;> simp only [hle, hge, hlt, hgt] <;> assumption

theorem of_inside {k n : Nat} (pos : 0 < n) (hn : n < 2 * binade) (hk : k = 0 ∨ binade < n)
    (h : k * binade + n < infinityBits) :
    of (k * binade + n) = ⟨(2 * n - 1) * 2 ^ k, (2 * n + 1) * 2 ^ k, n % 2 == 0⟩ := by
  have hinf : infinityBits < 0x8000000000000000 := by decide
  have hprev : (ofMagnitude false (k * binade + n - 1)).units = (n - 1) * 2 ^ k := by
    rw [Nat.add_sub_assoc pos]
    exact units_of_significand (by omega) (by omega) (by omega)
  have hself : (ofMagnitude false (k * binade + n)).units = n * 2 ^ k :=
    units_of_significand (by omega) (by omega) (by omega)
  have hnext : (ofMagnitude false (k * binade + n + 1)).units = (n + 1) * 2 ^ k := by
    rw [Nat.add_assoc]
    exact units_of_significand (by omega) (by omega) (by omega)
  have hparity : (k * binade + n) % 2 = n % 2 := by
    unfold binade
    omega
  have hlow : n - 1 + n = 2 * n - 1 := by omega
  have hhigh : n + (n + 1) = 2 * n + 1 := by omega
  simp only [of, hprev, hself, hnext, hparity, ← Nat.add_mul, hlow, hhigh]

theorem of_least {k : Nat} (h : (k + 1) * binade + binade < infinityBits) :
    of ((k + 1) * binade + binade) =
      ⟨(4 * binade - 1) * 2 ^ k, (2 * binade + 1) * 2 ^ (k + 1), true⟩ := by
  have hinf : infinityBits < 0x8000000000000000 := by decide
  have hsum : (k + 1) * binade + binade - 1 = k * binade + (2 * binade - 1) := by
    unfold binade
    omega
  have hprev : (ofMagnitude false ((k + 1) * binade + binade - 1)).units =
      (2 * binade - 1) * 2 ^ k := by
    rw [hsum]
    exact units_of_significand (by omega) (.inr (by decide)) (by omega)
  have hself : (ofMagnitude false ((k + 1) * binade + binade)).units = binade * 2 ^ (k + 1) :=
    units_of_significand (by omega) (.inr (by omega)) (by omega)
  have hnext : (ofMagnitude false ((k + 1) * binade + binade + 1)).units =
      (binade + 1) * 2 ^ (k + 1) := by
    rw [Nat.add_assoc]
    exact units_of_significand (by decide) (.inr (by omega)) (by omega)
  have hparity : ((k + 1) * binade + binade) % 2 = 0 := by
    unfold binade
    omega
  have hlow : (2 * binade - 1) * 2 ^ k + binade * 2 ^ (k + 1) = (4 * binade - 1) * 2 ^ k := by
    unfold binade
    rw [Nat.pow_succ]
    omega
  have hhigh : binade + (binade + 1) = 2 * binade + 1 := by omega
  simp only [of, hprev, hself, hnext, hparity, hlow, ← Nat.add_mul, hhigh, BEq.rfl]

theorem of_wide {m : Nat} (some : 0 < m) (finite : m < infinityBits) :
    (of m).low < 2 * (ofMagnitude false m).units ∧
      2 * (ofMagnitude false m).units < (of m).high ∧
      2 * (ofMagnitude false m).units + 10 ^ 16 * (of m).low < 10 ^ 16 * (of m).high := by
  have hinf : infinityBits < 0x8000000000000000 := by decide
  obtain ⟨k, n, rfl, hn, hk⟩ := exists_significand m
  have hpow : 0 < 2 ^ k := Nat.two_pow_pos k
  rw [units_of_significand hn.le hk (by omega)]
  by_cases hinside : k = 0 ∨ binade < n
  · have hsome : 0 < n := by
      rcases hinside with rfl | hinside <;> omega
    rw [of_inside hsome hn hinside finite]
    obtain ⟨n, rfl⟩ : ∃ n', n = n' + 1 := ⟨n - 1, by omega⟩
    have hlow : 2 * (n + 1) - 1 = 2 * n + 1 := by omega
    have hbound := Nat.mul_le_mul_right (2 ^ k) (show n + 1 ≤ 2 * binade by omega)
    unfold binade at hbound
    simp only [hlow]
    exact ⟨by linarith, by linarith, by linarith⟩
  · obtain ⟨k, rfl⟩ : ∃ k', k = k' + 1 := ⟨k - 1, by omega⟩
    obtain rfl : n = binade := by omega
    rw [of_least finite]
    unfold binade
    simp only [Nat.pow_succ] at hpow ⊢
    omega

end Decimal.Interval

namespace Binary64

open Decimal (Interval)

/-- The interval of a number whose neighbours have its exponent is rounded to it. -/
theorem roundMagnitude_inside {k n num den : Nat} (pos : 0 < den) (some : 0 < n)
    (hn : n < 2 * binade) (hk : k = 0 ∨ binade < n) (finite : k * binade + n < infinityBits)
    (h : (Interval.of (k * binade + n)).Spans (num / den)) :
    roundMagnitude num den = k * binade + n := by
  have hstep : 0 < den * 2 ^ k := Nat.mul_pos pos (Nat.two_pow_pos k)
  obtain ⟨low, high, inner⟩ := (Interval.spans_div_iff pos).mp h
  rw [Interval.of_inside some hn hk finite] at low high inner
  obtain ⟨n, rfl⟩ : ∃ n', n = n' + 1 := ⟨n - 1, by omega⟩
  have hlow : 2 * (n + 1) - 1 = 2 * n + 1 := by omega
  simp only [hlow] at low high inner
  have hround : nearestEven num (den * 2 ^ k) = n + 1 := by
    apply nearestEven_eq hstep
    · linarith
    · linarith
    · intro odd
      obtain ⟨low, high⟩ := inner (by simp [odd])
      constructor <;> linarith
  have hbelow : k = 0 ∨ binade * 2 ^ k * den ≤ num := by
    apply hk.imp_right
    intro hn
    have hle := Nat.mul_le_mul_right (2 ^ k * den) (show binade ≤ n by omega)
    linarith
  have habove : num < 2 * binade * 2 ^ k * den := by
    have hle := Nat.mul_le_mul_right (2 ^ k * den) (show n + 2 ≤ 2 * binade by omega)
    linarith
  rw [roundMagnitude_eq pos hbelow habove, hround, Nat.min_eq_left finite.le]

/-- The interval of the least number of an exponent is rounded to it, from both binades. -/
theorem roundMagnitude_least {k num den : Nat} (pos : 0 < den)
    (finite : (k + 1) * binade + binade < infinityBits)
    (h : (Interval.of ((k + 1) * binade + binade)).Spans (num / den)) :
    roundMagnitude num den = (k + 1) * binade + binade := by
  have hstep : 0 < den * 2 ^ k := Nat.mul_pos pos (Nat.two_pow_pos k)
  obtain ⟨low, high, -⟩ := (Interval.spans_div_iff pos).mp h
  rw [Interval.of_least finite] at low high
  obtain ⟨b, hb⟩ : ∃ b, binade = b + 1 := ⟨binade - 1, rfl⟩
  have hlow : 4 * binade - 1 = 4 * b + 3 := by omega
  simp only [hlow, Nat.pow_succ] at low high
  rcases Nat.lt_or_ge num (2 * binade * 2 ^ k * den) with less | least
  · -- Here the quotient has the exponent of the neighbour below.
    have hround : nearestEven num (den * 2 ^ k) = 2 * binade := by
      apply nearestEven_eq hstep
      · rw [hb]
        linarith
      · linarith
      · intro odd
        exact absurd odd (by decide)
    have hbelow : binade * 2 ^ k * den ≤ num := by
      rw [hb]
      nlinarith
    rw [roundMagnitude_eq pos (.inr hbelow) less, hround]
    have hsame : k * binade + 2 * binade = (k + 1) * binade + binade := by linarith
    rw [hsame, Nat.min_eq_left finite.le]
  · have hround : nearestEven num (den * 2 ^ (k + 1)) = binade := by
      rw [Nat.pow_succ]
      apply nearestEven_eq (by linarith)
      · linarith
      · linarith
      · intro odd
        exact absurd odd (by decide)
    have hbelow : binade * 2 ^ (k + 1) * den ≤ num := by
      rw [Nat.pow_succ]
      linarith
    have habove : num < 2 * binade * 2 ^ (k + 1) * den := by
      rw [Nat.pow_succ]
      rw [hb] at high ⊢
      nlinarith
    rw [roundMagnitude_eq pos (.inr hbelow) habove, hround, Nat.min_eq_left finite.le]

/-- What the interval of a finite number spans is rounded to that number. -/
theorem roundMagnitude_of_spans {m num den : Nat} (pos : 0 < den) (some : 0 < m)
    (finite : m < infinityBits) (h : (Interval.of m).Spans (num / den)) :
    roundMagnitude num den = m := by
  obtain ⟨k, n, rfl, hn, hk⟩ := exists_significand m
  by_cases hinside : k = 0 ∨ binade < n
  · have hsome : 0 < n := by
      rcases hinside with rfl | hinside <;> omega
    exact roundMagnitude_inside pos hsome hn hinside finite h
  · obtain ⟨k, rfl⟩ : ∃ k', k = k' + 1 := ⟨k - 1, by omega⟩
    obtain rfl : n = binade := by omega
    exact roundMagnitude_least pos finite h

end Binary64

end Relata
