import Mathlib.Algebra.Group.Nat.Defs
import Mathlib.Data.List.Induction
import Relata.Proofs.Lexicographic

/-! # Positional spellings

A number is spelled in a base by its digits, the one of most weight first and no zero in front
of others. It has one spelling, and of two numbers the smaller one has the shorter spelling, or
one of the same length that comes first.
-/

namespace Relata.Text

open Std

/-- What spells a number in a base: one digit, or a digit behind what spells a number above
zero. -/
inductive Positional (base : Nat) (digit : Nat → Char) : List Char → Nat → Prop
  | single {d : Nat} (lt : d < base) : Positional base digit [digit d] d
  | snoc {cs : List Char} {n d : Nat} (front : Positional base digit cs n) (pos : 0 < n)
      (lt : d < base) : Positional base digit (cs ++ [digit d]) (base * n + d)

variable {base : Nat} {digit : Nat → Char} {cs ds : List Char} {m n : Nat}

theorem positional_of_step {spell : Nat → List Char} (hbase : 1 < base)
    (step : ∀ n, spell n =
      if n < base then [digit n] else spell (n / base) ++ [digit (n % base)]) (n : Nat) :
    Positional base digit (spell n) n := by
  induction n using Nat.strongRecOn with
  | _ n ih =>
    by_cases hn : n < base
    · rw [step, if_pos hn]
      exact .single hn
    · have front := ih (n / base) (Nat.div_lt_self (by omega) hbase)
      have pos : 0 < n / base := Nat.div_pos (by omega) (by omega)
      have h := Positional.snoc front pos (Nat.mod_lt n (by omega))
      rw [Nat.div_add_mod] at h
      rwa [step, if_neg hn]

namespace Positional

theorem ne_nil (h : Positional base digit cs n) : cs ≠ [] := by
  cases h <;> simp

theorem exists_digit (h : Positional base digit cs n) {c : Char} (hc : c ∈ cs) :
    ∃ d < base, c = digit d := by
  induction h with
  | single lt => exact ⟨_, lt, List.mem_singleton.mp hc⟩
  | snoc _ _ lt ih =>
    rcases List.mem_append.mp hc with hc | hc
    · exact ih hc
    · exact ⟨_, lt, List.mem_singleton.mp hc⟩

theorem exists_of_digits (some : cs ≠ []) (digits : ∀ c ∈ cs, ∃ d < base, c = digit d)
    (leading : cs.head? ≠ .some (digit 0)) : ∃ n, 0 < n ∧ Positional base digit cs n := by
  induction cs using List.reverseRecOn with
  | nil => exact absurd rfl some
  | append_singleton cs c ih =>
    obtain ⟨d, hd, rfl⟩ := digits c (by simp)
    by_cases hcs : cs = []
    · subst hcs
      have pos : d ≠ 0 := by
        rintro rfl
        exact leading rfl
      exact ⟨d, by omega, .single hd⟩
    · rw [List.head?_append_of_ne_nil _ hcs] at leading
      obtain ⟨n, pos, h⟩ := ih hcs (fun c hc => digits c (List.mem_append_left _ hc)) leading
      have : 0 < base * n := Nat.mul_pos (by omega) pos
      exact ⟨base * n + d, by omega, .snoc h pos hd⟩

/-- Any digits spell a number behind zeros that stand in front. -/
theorem exists_behind_zeros (some : cs ≠ []) (digits : ∀ c ∈ cs, ∃ d < base, c = digit d) :
    ∃ k ds n, cs = List.replicate k (digit 0) ++ ds ∧ Positional base digit ds n := by
  induction cs with
  | nil => exact absurd rfl some
  | cons c cs ih =>
    by_cases hzero : c = digit 0
    · by_cases hcs : cs = []
      · subst hcs
        obtain ⟨d, hd, -⟩ := digits c List.mem_cons_self
        exact ⟨0, [c], 0, rfl, hzero ▸ .single (by omega)⟩
      · obtain ⟨k, ds, n, rfl, h⟩ := ih hcs fun c hc => digits c (List.mem_cons_of_mem _ hc)
        exact ⟨k + 1, ds, n, by rw [hzero]; rfl, h⟩
    · obtain ⟨n, -, h⟩ := exists_of_digits some digits fun h => hzero (Option.some.inj h)
      exact ⟨0, c :: cs, n, rfl, h⟩

/-! ### Lengths -/

theorem mul_add_lt {d e : Nat} (h : m < n) (hd : d < base) : base * m + d < base * n + e :=
  calc
    base * m + d < base * m + base := by omega
    _ = base * (m + 1) := (Nat.mul_succ base m).symm
    _ ≤ base * n := Nat.mul_le_mul_left base h
    _ ≤ base * n + e := Nat.le_add_right _ _

theorem lt_pow (h : Positional base digit cs n) : n < base ^ cs.length := by
  induction h with
  | single lt => simpa using lt
  | @snoc cs n d _ _ lt ih =>
    rw [List.length_append, List.length_singleton, Nat.pow_succ']
    exact @mul_add_lt base n _ d 0 ih lt

theorem length_le (h : Positional base digit cs n) {k : Nat} (hn : n < base ^ (k + 1)) :
    cs.length ≤ k + 1 := by
  induction h generalizing k with
  | single => simp
  | @snoc cs n d _ pos lt ih =>
    cases k with
    | zero =>
      rw [Nat.zero_add, Nat.pow_one] at hn
      have : base * 1 ≤ base * n := Nat.mul_le_mul_left base pos
      omega
    | succ k =>
      rw [Nat.pow_succ'] at hn
      have hfront : base * n < base * base ^ (k + 1) := by omega
      rw [List.length_append, List.length_singleton]
      exact Nat.succ_le_succ (ih (Nat.lt_of_mul_lt_mul_left hfront))

theorem length_eq (h : Positional base digit cs n) (hbase : 1 < base) {k : Nat}
    (hle : base ^ k ≤ n) (hlt : n < base ^ (k + 1)) : cs.length = k + 1 := by
  have hk : k < cs.length := (Nat.pow_lt_pow_iff_right hbase).mp (Nat.lt_of_le_of_lt hle h.lt_pow)
  have hlen := h.length_le hlt
  omega

/-! ### Order -/

theorem compare_mul_add {d e : Nat} (hd : d < base) (he : e < base) :
    compare (base * m + d) (base * n + e) = (compare m n).then (compare d e) := by
  refine compare_eq_then (fun h => mul_add_lt h hd) (fun h => mul_add_lt h he) fun h => ?_
  subst h
  exact compare_eq_compare (by omega) (by omega) (by omega)

section

variable (ordered : ∀ {d e : Nat}, d < base → e < base →
  compare (digit d) (digit e) = compare d e)

include ordered

/-- Numbers are compared by the lengths of their spellings, and then by their digits, the first
ones first. -/
theorem compare_eq (hm : Positional base digit cs m) (hn : Positional base digit ds n) :
    compare m n = (compare cs.length ds.length).then (compare cs ds) := by
  -- A number of two digits or more is above every digit.
  have above {d n e : Nat} (hd : d < base) (pos : 0 < n) : d < base * n + e := by
    simpa using @mul_add_lt base 0 n d e pos hd
  induction hm generalizing ds n with
  | single hd =>
    cases hn with
    | single he =>
      rw [compare_single, ordered hd he]
      rfl
    | @snoc ds _ _ front pos _ =>
      have hlen := List.length_pos_of_ne_nil front.ne_nil
      have hlt : compare 1 (ds.length + 1) = .lt := Nat.compare_eq_lt.mpr (by omega)
      rw [Nat.compare_eq_lt.mpr (above hd pos), List.length_append, List.length_singleton,
        List.length_singleton, hlt]
      rfl
  | @snoc cs m d front pos hd ih =>
    cases hn with
    | single he =>
      have hlen := List.length_pos_of_ne_nil front.ne_nil
      have hgt : compare (cs.length + 1) 1 = .gt := Nat.compare_eq_gt.mpr (by omega)
      rw [Nat.compare_eq_gt.mpr (above he pos), List.length_append, List.length_singleton,
        List.length_singleton, hgt]
      rfl
    | @snoc ds n e front' _ he =>
      have hlen : compare (cs ++ [digit d]).length (ds ++ [digit e]).length =
          compare cs.length ds.length := by
        simp only [List.length_append, List.length_singleton]
        exact compare_eq_compare (by omega) (by omega) (by omega)
      rw [compare_mul_add hd he, ih front', hlen]
      cases h : compare cs.length ds.length with
      | lt => rfl
      | gt => rfl
      | eq =>
        rw [compare_append (Nat.compare_eq_eq.mp h), compare_single, ordered hd he]
        rfl

/-- A number has one spelling. -/
theorem unique (h : Positional base digit cs n) (h' : Positional base digit ds n) : cs = ds := by
  have heq := compare_eq ordered h h'
  rw [ReflOrd.compare_self] at heq
  exact LawfulEqOrd.eq_of_compare (Ordering.then_eq_eq.mp heq.symm).2

theorem eq_zero_of_digit_eq {d : Nat} (hd : d < base) (h : digit d = digit 0) : d = 0 := by
  rw [← Nat.compare_eq_eq, ← ordered hd (by omega), h, ReflOrd.compare_self]

theorem head?_ne (h : Positional base digit cs n) (pos : 0 < n) : cs.head? ≠ some (digit 0) := by
  induction h with
  | @single d lt =>
    intro hzero
    have := eq_zero_of_digit_eq ordered lt (Option.some.inj hzero)
    omega
  | snoc front hfront _ ih =>
    rw [List.head?_append_of_ne_nil _ front.ne_nil]
    exact ih hfront

end

end Positional

end Relata.Text
