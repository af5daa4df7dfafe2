import Mathlib.Data.List.Basic

/-! # Lexicographic order

What is compared part by part is decided by the first part that differs. Texts are compared by
their characters, and texts of ASCII by their octets as well.
-/

namespace Relata

open Std

theorem compare_eq_then {α β : Type} [Ord α] [LT α] [LE α] [LawfulOrderOrd α] [LawfulOrderLT α]
    [Ord β] [LT β] [LE β] [LawfulOrderOrd β] [LawfulOrderLT β] [LawfulEqOrd β] {a b : α} {x y : β}
    {rest : Ordering} (lt : x < y → a < b) (gt : y < x → b < a)
    (eq : x = y → compare a b = rest) : compare a b = (compare x y).then rest := by
  cases h : compare x y with
  | lt => exact compare_eq_lt.mpr (lt (compare_eq_lt.mp h))
  | eq => exact eq (LawfulEqOrd.eq_of_compare h)
  | gt => exact compare_eq_gt.mpr (gt (compare_eq_gt.mp h))

theorem compare_eq_compare {α β : Type} [Ord α] [LT α] [LE α] [LawfulOrderOrd α] [LawfulOrderLT α]
    [ReflOrd α] [Ord β] [LT β] [LE β] [LawfulOrderOrd β] [LawfulOrderLT β] [LawfulEqOrd β] {a b : α}
    {x y : β} (lt : x < y → a < b) (gt : y < x → b < a) (eq : x = y → a = b) :
    compare a b = compare x y := by
  rw [← @Ordering.then_eq (compare x y)]
  exact compare_eq_then lt gt fun h => eq h ▸ ReflOrd.compare_self

section

variable {α : Type} [Ord α]

theorem compare_single (a b : α) : compare [a] [b] = compare a b := by
  rw [List.compare_cons_cons]
  exact Ordering.then_eq

theorem compare_append {as bs cs ds : List α} (h : as.length = cs.length) :
    compare (as ++ bs) (cs ++ ds) = (compare as cs).then (compare bs ds) := by
  induction as generalizing cs with
  | nil =>
    obtain rfl := List.eq_nil_of_length_eq_zero h.symm
    rfl
  | cons a as ih =>
    cases cs with
    | nil => cases h
    | cons c cs =>
      rw [List.cons_append, List.cons_append, List.compare_cons_cons, List.compare_cons_cons,
        ih (Nat.succ.inj h), Ordering.then_assoc]

theorem compare_map {β : Type} [Ord β] {f : α → β} {as bs : List α}
    (h : ∀ a ∈ as, ∀ b ∈ bs, compare (f a) (f b) = compare a b) :
    compare (as.map f) (bs.map f) = compare as bs := by
  induction as generalizing bs with
  | nil => cases bs <;> rfl
  | cons a as ih =>
    cases bs with
    | nil => rfl
    | cons b bs =>
      rw [List.map_cons, List.map_cons, List.compare_cons_cons, List.compare_cons_cons,
        h a List.mem_cons_self b List.mem_cons_self,
        ih fun a ha b hb => h a (List.mem_cons_of_mem _ ha) b (List.mem_cons_of_mem _ hb)]

end

namespace Text

theorem compare_chars (as bs : List Char) : compare as bs = compareOfLessAndEq as bs := by
  induction as generalizing bs with
  | nil => cases bs <;> rfl
  | cons a as ih =>
    cases bs with
    | nil => rfl
    | cons b bs =>
      rw [List.compare_cons_cons, ih]
      have first : compare a b = if a < b then .lt else if a = b then .eq else .gt := rfl
      simp only [first, compareOfLessAndEq, List.cons_lt_cons_iff, List.cons.injEq]
      by_cases hlt : a < b
      · simp only [if_pos hlt, if_pos (Or.inl hlt : a < b ∨ a = b ∧ as < bs)]
        rfl
      · by_cases heq : a = b <;> simp [hlt, heq]

/-- Texts are compared by their characters. -/
theorem compare_texts (s t : String) : compare s t = compare s.toList t.toList := by
  have heq : s = t ↔ s.toList = t.toList := String.toList_inj.symm
  rw [compare_chars]
  simp only [compareOfLessAndEq, ← heq]
  rfl

def octets (s : String) : List UInt8 :=
  s.toList.flatMap String.utf8EncodeChar

theorem octets_of_ascii {s : String} (h : ∀ c ∈ s.toList, c.val ≤ 127) :
    octets s = s.toList.map fun c => c.val.toUInt8 := by
  rw [octets, List.map_eq_flatMap]
  exact List.flatMap_congr fun c hc =>
    String.utf8EncodeChar_eq_singleton (Char.utf8Size_eq_one_iff.mpr (h c hc))

theorem compare_octets {s t : String} (hs : ∀ c ∈ s.toList, c.val ≤ 127)
    (ht : ∀ c ∈ t.toList, c.val ≤ 127) : compare (octets s) (octets t) = compare s t := by
  rw [octets_of_ascii hs, octets_of_ascii ht, compare_texts]
  refine compare_map fun c hc d hd => ?_
  have octet {c : Char} (h : c.val ≤ 127) : c.val.toUInt8.toNat = c.val.toNat := by
    have := UInt32.le_iff_toNat_le.mp h
    rw [UInt32.toNat_toUInt8]
    exact Nat.mod_eq_of_lt (Nat.lt_of_le_of_lt this (by decide))
  have hc := octet (hs c hc)
  have hd := octet (ht d hd)
  have hlt : c.val.toUInt8 < d.val.toUInt8 ↔ c < d := by
    rw [UInt8.lt_iff_toNat_lt, hc, hd, Char.lt_def, UInt32.lt_iff_toNat_lt]
  have heq : c.val.toUInt8 = d.val.toUInt8 ↔ c = d := by
    rw [← UInt8.toNat_inj, hc, hd, UInt32.toNat_inj, Char.val_inj]
  show compareOfLessAndEq _ _ = compareOfLessAndEq _ _
  simp only [compareOfLessAndEq, hlt, heq]

end Text

end Relata
