import Relata.Number.Binary64
import Mathlib.Data.Rat.Cast.Order

/-! # Exact values of doubles

A finite double is a rational number, and two finite doubles are the same number only if they
have the same bits or are both zero. A comparison that finds a double and an integer of 64
bits equal finds the double finite, and its value that integer.
-/

namespace Relata.Binary64

def exact (x : Binary64) : ℚ :=
  x.value / unit

theorem one_shiftLeft_pos (n : Nat) : 0 < 1 <<< n := by
  rw [Nat.one_shiftLeft]
  exact Nat.two_pow_pos n

theorem one_shiftLeft_lt {m n : Nat} (h : m < n) : 1 <<< m < 1 <<< n := by
  rw [Nat.one_shiftLeft, Nat.one_shiftLeft]
  exact Nat.pow_lt_pow_right Nat.one_lt_two h

theorem one_shiftLeft_add (m n : Nat) : 1 <<< (m + n) = 2 ^ m * 1 <<< n := by
  rw [Nat.one_shiftLeft, Nat.one_shiftLeft, Nat.pow_add]

theorem unit_pos : 0 < unit :=
  one_shiftLeft_pos 1074

theorem mul_unit_lt_beyond {n : Nat} (h : n ≤ 2 ^ 64) : n * unit < beyond :=
  calc
    n * unit ≤ 2 ^ 64 * unit := Nat.mul_le_mul_right _ h
    _ = 1 <<< (64 + 1074) := (one_shiftLeft_add 64 1074).symm
    _ < beyond := one_shiftLeft_lt (by omega)

/-! ### Magnitudes -/

theorem units_of_lt {x : Binary64} (h : x.magnitude < binade) : x.units = x.magnitude := by
  rw [units, if_pos (Nat.div_eq_of_lt h), Nat.mod_eq_of_lt h]

theorem units_of_le {x : Binary64} (h : binade ≤ x.magnitude) :
    ∃ e f, f < binade ∧ x.magnitude = (e + 1) * binade + f ∧ x.units = (binade + f) * 2 ^ e := by
  have pos : 0 < binade := by decide
  have some : 0 < x.magnitude / binade := Nat.div_pos h pos
  refine ⟨x.magnitude / binade - 1, x.magnitude % binade, Nat.mod_lt _ pos, ?_, ?_⟩
  · rw [Nat.sub_add_cancel some, Nat.div_add_mod']
  · rw [units, if_neg (by omega), Nat.shiftLeft_eq]

theorem exponent_le_of_shifted_le {e e' f f' : Nat} (hf : f' < binade)
    (h : (binade + f) * 2 ^ e ≤ (binade + f') * 2 ^ e') : e ≤ e' := by
  by_contra hlt
  have less : (binade + f') * 2 ^ e' < (binade + f) * 2 ^ e :=
    calc
      (binade + f') * 2 ^ e' < 2 * binade * 2 ^ e' :=
        Nat.mul_lt_mul_of_pos_right (by omega) (Nat.two_pow_pos e')
      _ = binade * 2 ^ (e' + 1) := by
        rw [Nat.pow_succ, Nat.mul_comm 2, Nat.mul_assoc, Nat.mul_comm 2]
      _ ≤ binade * 2 ^ e :=
        Nat.mul_le_mul_left _ (Nat.pow_le_pow_right (by omega) (by omega))
      _ ≤ (binade + f) * 2 ^ e := Nat.mul_le_mul_right _ (by omega)
  omega

theorem magnitude_eq_of_units_eq {x y : Binary64} (h : x.units = y.units) :
    x.magnitude = y.magnitude := by
  -- Below a binade there is no leading bit.
  have apart {x y : Binary64} (hx : x.magnitude < binade) (hy : binade ≤ y.magnitude) :
      x.units ≠ y.units := by
    obtain ⟨e, f, _, _, hy⟩ := units_of_le hy
    have leading : binade + f ≤ (binade + f) * 2 ^ e :=
      Nat.le_mul_of_pos_right _ (Nat.two_pow_pos e)
    rw [units_of_lt hx, hy]
    omega
  rcases lt_or_ge x.magnitude binade with hx | hx <;>
    rcases lt_or_ge y.magnitude binade with hy | hy
  · rwa [units_of_lt hx, units_of_lt hy] at h
  · exact absurd h (apart hx hy)
  · exact absurd h.symm (apart hy hx)
  · obtain ⟨e, f, hf, mx, ux⟩ := units_of_le hx
    obtain ⟨e', f', hf', my, uy⟩ := units_of_le hy
    rw [ux, uy] at h
    obtain rfl : e = e' :=
      Nat.le_antisymm (exponent_le_of_shifted_le hf' h.le) (exponent_le_of_shifted_le hf h.ge)
    have := Nat.eq_of_mul_eq_mul_right (Nat.two_pow_pos e) h
    omega

theorem eq_of_magnitude_eq {x y : Binary64} (sign : x.isNegative = y.isNegative)
    (h : x.magnitude = y.magnitude) : x = y := by
  have hx := x.bits.toNat_lt
  have hy := y.bits.toNat_lt
  simp only [isNegative, decide_eq_decide] at sign
  simp only [magnitude] at h
  have bits : x.bits.toNat = y.bits.toNat := by omega
  cases x
  cases y
  exact congrArg mk (UInt64.toNat_inj.mp bits)

theorem units_lt (x : Binary64) : x.units < 1 <<< (x.magnitude / binade + 53) := by
  rw [Nat.add_comm, one_shiftLeft_add, Nat.one_shiftLeft]
  have significand : 2 ^ 53 = 2 * binade := rfl
  rcases lt_or_ge x.magnitude binade with hx | hx
  · rw [units_of_lt hx, Nat.div_eq_of_lt hx]
    omega
  · obtain ⟨e, f, hf, hm, hu⟩ := units_of_le hx
    have exponent : x.magnitude / binade = e + 1 := by
      rw [hm, Nat.add_comm, Nat.add_mul_div_right _ _ (by decide), Nat.div_eq_of_lt hf,
        Nat.zero_add]
    rw [hu, exponent]
    calc
      (binade + f) * 2 ^ e < 2 ^ 53 * 2 ^ e :=
        Nat.mul_lt_mul_of_pos_right (by omega) (Nat.two_pow_pos e)
      _ ≤ 2 ^ 53 * 2 ^ (e + 1) :=
        Nat.mul_le_mul_left _ (Nat.pow_le_pow_right (by omega) (by omega))

theorem units_lt_beyond {x : Binary64} (h : x.isFinite = true) : x.units < beyond := by
  have exponent : x.magnitude / binade < 2047 :=
    Nat.div_lt_of_lt_mul (of_decide_eq_true h)
  exact (units_lt x).trans (one_shiftLeft_lt (by omega))

/-! ### Values -/

theorem natAbs_value (x : Binary64) : x.value.natAbs = x.units := by
  unfold value
  split <;> simp

/-- Two numbers have the same value only if they have the same bits or are both zero. -/
theorem eq_of_value_eq {x y : Binary64} (h : x.value = y.value) (some : x.value ≠ 0) : x = y := by
  have units : x.units = y.units := by rw [← natAbs_value, ← natAbs_value, h]
  have pos : x.units ≠ 0 := by
    rw [← natAbs_value]
    exact Int.natAbs_ne_zero.mpr some
  refine eq_of_magnitude_eq ?_ (magnitude_eq_of_units_eq units)
  unfold value at h
  split at h <;> split at h <;> simp_all

theorem toInt?_eq_some {x : Binary64} {n : Int} :
    x.toInt? = some n ↔ x.isFinite = true ∧ x.value = n * unit := by
  have pos : (unit : Int) ≠ 0 := by exact_mod_cast unit_pos.ne'
  unfold toInt?
  rw [← natAbs_value]
  constructor
  · intro h
    split at h
    · next whole =>
      obtain ⟨finite, divides⟩ := (Bool.and_eq_true _ _).mp whole
      cases h
      have divides := Int.natCast_dvd.mpr (Nat.dvd_of_mod_eq_zero (beq_iff_eq.mp divides))
      exact ⟨finite, (Int.ediv_mul_cancel divides).symm⟩
    · cases h
  · rintro ⟨finite, h⟩
    have divides : unit ∣ x.value.natAbs := Int.natCast_dvd.mp ⟨n, h.trans (Int.mul_comm _ _)⟩
    rw [finite, Nat.mod_eq_zero_of_dvd divides, h, Int.mul_ediv_cancel _ pos]
    rfl

theorem exact_eq_intCast {x : Binary64} {n : Int} : x.exact = n ↔ x.value = n * unit := by
  have pos : (unit : ℚ) ≠ 0 := by exact_mod_cast unit_pos.ne'
  rw [exact, div_eq_iff pos]
  exact_mod_cast Iff.rfl

/-! ### Comparisons -/

theorem natAbs_extended (x : Binary64) :
    x.extended.natAbs = if x.isFinite then x.units else beyond := by
  unfold extended
  split
  · exact natAbs_value x
  · split <;> simp

theorem isFinite_of_extended_lt {x : Binary64} (h : x.extended.natAbs < beyond) :
    x.isFinite = true := by
  rw [natAbs_extended] at h
  split at h
  · assumption
  · omega

theorem compare_eq_eq {x y : Binary64} (finite : y.isFinite = true) :
    x.compare y = .eq ↔ x.isFinite = true ∧ x.value = y.value := by
  have hy : y.extended = y.value := if_pos finite
  rw [compare, compare_eq_iff_eq, hy]
  constructor
  · intro h
    have hx : x.isFinite = true := by
      apply isFinite_of_extended_lt
      rw [h, natAbs_value]
      exact units_lt_beyond finite
    exact ⟨hx, (if_pos hx).symm.trans h⟩
  · rintro ⟨hx, h⟩
    exact (if_pos hx).trans h

/-- A number is equal to an integer of 64 bits only if its exact value is. -/
theorem compareInt_eq_eq {x : Binary64} {n : Int} (small : n.natAbs ≤ 2 ^ 64) :
    x.compareInt n = .eq ↔ x.toInt? = some n := by
  rw [compareInt, compare_eq_iff_eq, toInt?_eq_some]
  constructor
  · intro h
    have hx : x.isFinite = true := by
      apply isFinite_of_extended_lt
      rw [h, Int.natAbs_mul, Int.natAbs_natCast]
      exact mul_unit_lt_beyond small
    exact ⟨hx, (if_pos hx).symm.trans h⟩
  · rintro ⟨hx, h⟩
    exact (if_pos hx).trans h

end Relata.Binary64
