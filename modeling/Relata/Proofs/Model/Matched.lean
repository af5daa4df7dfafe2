import Relata.Proofs.Model.Alone
import Relata.Proofs.Store.Sorting
import Relata.Proofs.Value.Key

/-! # Keys of what the store takes for equal

The store compares a column with what a parent holds by rules of its own, and the rows that it
finds are dealt out by their keys. Both agree within a class of scalars. Between classes they
agree on whole numbers below a bound and on their spellings, and on nothing else: a number and
another text of the same number are equal in the store, but the row is not dealt out.
-/

namespace Relata

open Text

namespace Scalar

/-! ### What is equal in the store -/

theorem natAbs_toInt_le (n : Int64) : n.toInt.natAbs ≤ 2 ^ 64 := by
  have := n.le_toInt
  have := n.toInt_lt
  omega

variable {t : Scalar}

theorem of_order_integer {n : Int64} (h : (integer n).order t = .eq) :
    t = .integer n ∨ ∃ y, t = .real y ∧ y.toInt? = some n.toInt := by
  cases t with
  | integer m =>
    have same := Int64.toInt_inj.mp (compare_eq_iff_eq.mp h)
    exact .inl (congrArg integer same.symm)
  | real y =>
    have equal : y.compareInt n.toInt = .eq := Ordering.swap_eq_eq.mp h
    exact .inr ⟨y, rfl, (Binary64.compareInt_eq_eq (natAbs_toInt_le n)).mp equal⟩
  | _ => cases h

theorem of_order_real {x : Binary64} (h : (real x).order t = .eq) :
    (∃ n : Int64, t = .integer n ∧ x.toInt? = some n.toInt) ∨
      ∃ y, t = .real y ∧ x.compare y = .eq := by
  cases t with
  | integer n => exact .inl ⟨n, rfl, (Binary64.compareInt_eq_eq (natAbs_toInt_le n)).mp h⟩
  | real y => exact .inr ⟨y, rfl, h⟩
  | _ => cases h

theorem of_order_text {s : String} (h : (text s).order t = .eq) : t = .text s := by
  cases t with
  | text w =>
    have equal : compare s w = .eq := h
    exact congrArg text (Std.LawfulEqCmp.eq_of_compare equal).symm
  | _ => cases h

theorem of_order_blob {bytes : List UInt8} (h : (blob bytes).order t = .eq) :
    t = .blob bytes := by
  cases t with
  | blob other =>
    have same := Std.LawfulEqCmp.eq_of_compare ((compareLists_toNat bytes other).symm.trans h)
    exact congrArg blob (List.map_injective_iff.mpr (fun _ _ => UInt8.toNat_inj.mp) same).symm
  | _ => cases h

end Scalar

namespace Affinity

/-! ### What operands come from -/

variable {a : Affinity} {s : Scalar}

theorem toNumber_text (w : String) :
    toNumber (.text w) = .text w ∨ (∃ n, toNumber (.text w) = .integer n) ∨
      ∃ x, toNumber (.text w) = .real x := by
  rw [toNumber]
  split
  · exact .inr (.inl ⟨_, rfl⟩)
  · exact .inr (.inr ⟨_, rfl⟩)
  · exact .inl rfl

theorem of_operand_integer {n : Int64} (h : a.operand s = .integer n) :
    s = .integer n ∨ ∃ w, s = .text w := by
  cases s with
  | text w => exact .inr ⟨w, rfl⟩
  | _ => cases a <;> first | exact .inl h | cases h

theorem of_operand_real {x : Binary64} (h : a.operand s = .real x) :
    s = .real x ∨ ∃ w, s = .text w := by
  cases s with
  | text w => exact .inr ⟨w, rfl⟩
  | _ => cases a <;> first | exact .inl h | cases h

theorem of_operand_text {w : String} (h : a.operand s = .text w) :
    s = .text w ∨ (∃ n, s = .integer n) ∨ ∃ x, s = .real x := by
  cases s with
  | integer n => exact .inr (.inl ⟨n, rfl⟩)
  | real x => exact .inr (.inr ⟨x, rfl⟩)
  | text u =>
    rcases toNumber_text u with hu | ⟨n, hu⟩ | ⟨x, hu⟩ <;>
      cases a <;> first | exact .inl h | exact .inl (hu.symm.trans h) | cases hu.symm.trans h
  | _ => cases a <;> cases h

theorem of_operand_blob {bytes : List UInt8} (h : a.operand s = .blob bytes) :
    s = .blob bytes := by
  cases s with
  | text u =>
    rcases toNumber_text u with hu | ⟨n, hu⟩ | ⟨x, hu⟩ <;>
      cases a <;> first | exact h | cases hu.symm.trans h
  | _ => cases a <;> first | exact h | cases h

end Affinity

/-! ### What the keys of equal scalars are -/

/-- Whether two scalars have one key, if the store takes them for equal. Scalars of one class
have. -/
def Scalar.Folds : Scalar → Scalar → Prop
  | .integer n, .real _ | .real _, .integer n => n.toInt.natAbs < 9000000000000000
  | .integer n, .text w | .text w, .integer n => Spells w.toList n.toInt
  | .real x, .text w | .text w, .real x =>
    ∃ n : Int64, x.isFinite = true ∧ x.exact = n.toInt ∧ n.toInt.natAbs < 9000000000000000 ∧
      Spells w.toList n.toInt
  | _, _ => True

namespace Key

theorem ofReal_eq_integer_iff {x : Binary64} {n : Int64} :
    ofReal x = .integer n ↔
      x.isFinite = true ∧ x.exact = n.toInt ∧ n.toInt.natAbs < 9000000000000000 := by
  rw [ofReal_eq_integer, Binary64.toInt?_eq_some, Binary64.exact_eq_intCast, and_assoc]

theorem ofReal_eq_ofText {x : Binary64} {w : String} :
    ofReal x = ofText w ↔ (Scalar.real x).Folds (.text w) := by
  constructor
  · intro h
    rcases ofReal_cases x with ⟨n, hx⟩ | hx
    · obtain ⟨finite, value, small⟩ := ofReal_eq_integer_iff.mp hx
      exact ⟨n, finite, value, small, ofText_eq_integer.mp (h.symm.trans hx)⟩
    · rcases ofText_cases w with ⟨n, hw⟩ | hw
      · cases hx.symm.trans (h.trans hw)
      · cases hx.symm.trans (h.trans hw)
  · rintro ⟨n, finite, value, small, spells⟩
    rw [ofReal_eq_integer_iff.mpr ⟨finite, value, small⟩, ofText_eq_integer.mpr spells]

theorem ofReal_eq_of_value_eq {x y : Binary64} (hx : x.isFinite = true) (hy : y.isFinite = true)
    (h : x.value = y.value) : ofReal x = ofReal y := by
  by_cases zero : x.value = 0
  · have key {z : Binary64} (hz : z.isFinite = true) (zero : z.value = 0) :
        ofReal z = .integer 0 := by
      refine ofReal_eq_integer.mpr ⟨Binary64.toInt?_eq_some.mpr ⟨hz, ?_⟩, by decide⟩
      rw [zero]
      exact (Int.zero_mul _).symm
    rw [key hx zero, key hy (h ▸ zero)]
  · rw [Binary64.eq_of_value_eq h zero]

theorem ofScalar?_integer_eq_text {n : Int64} {w : String} :
    ofScalar? (.integer n) = ofScalar? (.text w) ↔ Spells w.toList n.toInt := by
  rw [← ofText_eq_integer, eq_comm]
  exact Option.some_inj

theorem ofScalar?_integer_eq_real {n : Int64} {x : Binary64} (value : x.toInt? = some n.toInt) :
    ofScalar? (.integer n) = ofScalar? (.real x) ↔ n.toInt.natAbs < 9000000000000000 := by
  rw [eq_comm, ofScalar?, ofScalar?, Option.some_inj, ofReal_eq_integer, and_iff_right value]

end Key

namespace Scalar

theorem key?_toValue {s : Scalar} (finite : ∀ x, s = .real x → x.isFinite = true) :
    s.toValue.key? = Key.ofScalar? s := by
  cases s with
  | real x => rw [toValue, Value.key?, Value.toScalar, if_pos (finite x rfl)]
  | _ => rfl

theorem key?_toValue_real {x : Binary64} (finite : x.isFinite = true) :
    (real x).toValue.key? = Key.ofScalar? (.real x) :=
  key?_toValue (by rintro _ ⟨⟩; exact finite)

theorem key?_toValue_real_eq_text {x : Binary64} {w : String} :
    (real x).toValue.key? = Key.ofScalar? (.text w) ↔ (real x).Folds (.text w) := by
  by_cases finite : x.isFinite = true
  · rw [key?_toValue_real finite]
    exact Option.some_inj.trans Key.ofReal_eq_ofText
  · have keyless : (real x).toValue.key? = none :=
      Value.key?_eq_none.mpr (.inr (.inr (.inr ⟨x, rfl, Bool.eq_false_iff.mpr finite⟩)))
    rw [keyless]
    refine iff_of_false nofun ?_
    rintro ⟨n, h, _⟩
    exact finite h

theorem order_of_holds {s t : Scalar} (h : (Comparison.truth .equal s t).holds = true) :
    s ≠ .null ∧ t ≠ .null ∧ s.order t = .eq := by
  unfold Comparison.truth at h
  split at h
  · cases h
  · next present =>
    rw [Bool.or_eq_true, not_or] at present
    refine ⟨?_, ?_, beq_iff_eq.mp (Option.some.inj (beq_iff_eq.mp h))⟩
    · rintro rfl
      exact present.1 rfl
    · rintro rfl
      exact present.2 rfl

theorem operand_ne_null {s t : Scalar} {a : Affinity}
    (equal : (Comparison.truth .equal s (a.operand t)).holds = true) : t ≠ .null := by
  rintro rfl
  obtain ⟨_, present, _⟩ := order_of_holds equal
  cases a <;> exact present rfl

/-- A cell and an operand that the store takes for equal have one key exactly if they are of one
class, or are a whole number below the bound in two of its forms. -/
theorem key?_toValue_eq_iff {s t : Scalar} {a : Affinity} {v : Value} (bound : v.Binds t)
    (equal : (Comparison.truth .equal s (a.operand t)).holds = true) :
    s.toValue.key? = v.key? ↔ s.Folds t := by
  obtain ⟨present, _, order⟩ := order_of_holds equal
  rw [bound.key?]
  cases s with
  | null => exact absurd rfl present
  | integer n =>
    rw [key?_toValue (by simp)]
    rcases of_order_integer order with h | ⟨y, h, value⟩
    · rcases Affinity.of_operand_integer h with rfl | ⟨w, rfl⟩
      · exact iff_of_true rfl trivial
      · exact Key.ofScalar?_integer_eq_text
    · rcases Affinity.of_operand_real h with rfl | ⟨w, rfl⟩
      · exact Key.ofScalar?_integer_eq_real value
      · exact Key.ofScalar?_integer_eq_text
  | real x =>
    rcases of_order_real order with ⟨n, h, value⟩ | ⟨y, h, compared⟩
    · rcases Affinity.of_operand_integer h with rfl | ⟨w, rfl⟩
      · rw [key?_toValue_real (Binary64.toInt?_eq_some.mp value).1]
        exact eq_comm.trans (Key.ofScalar?_integer_eq_real value)
      · exact key?_toValue_real_eq_text
    · rcases Affinity.of_operand_real h with rfl | ⟨w, rfl⟩
      · obtain ⟨finite, value⟩ := (Binary64.compare_eq_eq bound.isFinite).mp compared
        rw [key?_toValue_real finite]
        have key := Key.ofReal_eq_of_value_eq finite bound.isFinite value
        exact iff_of_true (congrArg some key) trivial
      · exact key?_toValue_real_eq_text
  | text u =>
    rw [key?_toValue (by simp)]
    obtain rfl | ⟨n, rfl⟩ | ⟨y, rfl⟩ := Affinity.of_operand_text (of_order_text order)
    · exact iff_of_true rfl trivial
    · exact eq_comm.trans Key.ofScalar?_integer_eq_text
    · exact eq_comm.trans (Option.some_inj.trans Key.ofReal_eq_ofText)
  | blob bytes =>
    obtain rfl := Affinity.of_operand_blob (of_order_blob order)
    exact iff_of_true rfl trivial

end Scalar

theorem Value.Binds.exists_key {v : Value} {t : Scalar} (h : v.Binds t) (present : t ≠ .null) :
    ∃ k, v.key? = some k := by
  rw [h.key?]
  cases t with
  | null => exact absurd rfl present
  | _ => exact ⟨_, rfl⟩

namespace Relation

/-- A fetched row is among the related rows of a parent if it has the key of the parent. -/
theorem mem_group {r : Relation} {fetched : List Record} {parent q : Record} {u v : Value} {k : Key}
    (key : Entries.get? parent r.parentKey = some v) (keyed : v.key? = some k)
    (cell : Entries.get? q r.targetKey = some u) (mem : q ∈ fetched) :
    q ∈ r.group fetched parent ↔ u.key? = v.key? := by
  have parentKey : parent.keyOf? r.parentKey = some k := by
    rw [Record.keyOf?, key, Option.bind_some, keyed]
  have rowKey : q.keyOf? r.targetKey = u.key? := by rw [Record.keyOf?, cell, Option.bind_some]
  rw [group, parentKey, List.mem_filter, and_iff_right mem, rowKey, keyed, decide_eq_true_iff]

/-- A row that the store finds equal to what a parent holds has the key of the parent, and is
dealt out to it, exactly if the two are of one class, or are a whole number below the bound in
two of its forms: an integer, a double, or the spelling. -/
theorem fetched_row_is_dealt_out {f : Frame} {row : Row} {name : String} {v : Value}
    (equal : (Test.compareTruth f row name .equal v).holds = true) :
    ∃ t, v.Binds t ∧
      ((f.scalar row name).toValue.key? = v.key? ↔ (f.scalar row name).Folds t) ∧
      ∀ (r : Relation) (parent q : Record) (fetched : List Record), r.targetKey = name →
        Entries.get? parent r.parentKey = some v → q ∈ fetched →
        Entries.get? q name = some (f.scalar row name).toValue →
        (q ∈ r.group fetched parent ↔ (f.scalar row name).Folds t) := by
  unfold Test.compareTruth at equal
  split at equal
  · next t ht =>
    have bound := Value.Binds.of_toScalar ht
    have same := Scalar.key?_toValue_eq_iff bound equal
    refine ⟨t, bound, same, ?_⟩
    rintro r parent q fetched rfl key mem cell
    obtain ⟨k, keyed⟩ := bound.exists_key (Scalar.operand_ne_null equal)
    rw [mem_group key keyed cell mem, same]
  · cases equal

/-! ### Registers -/

def registerFrame : Frame where
  definition := { name := "registers", columns := [{ name := "id", affinity := .integer }] }

def priceFrame : Frame where
  definition := { name := "prices", columns := [{ name := "id", affinity := .real }] }

def register (n : Int64) : Row where
  number := n.toInt
  cells := [.integer n]

def shiftRegister : Relation :=
  ⟨.manyToOne, "registers", "register_id", "id"⟩

/-- The register of a shift that holds the number of the register as a text. -/
theorem fetched_row_is_dealt_out_register :
    (Test.compareTruth registerFrame (register 1) "id" .equal (.text "1")).holds = true ∧
      [("id", .integer 1)] ∈
        shiftRegister.group [[("id", .integer 1)]] [("register_id", .text "1")] := by
  have equal : (Test.compareTruth registerFrame (register 1) "id" .equal (.text "1")).holds =
      true := by decide +kernel
  obtain ⟨t, bound, _, dealt⟩ := fetched_row_is_dealt_out equal
  have spelling : t = .text "1" := (Except.ok.inj (bound Record.key)).symm
  refine ⟨equal, (dealt shiftRegister _ _ _ rfl rfl (List.mem_singleton_self _) rfl).mpr ?_⟩
  rw [spelling]
  exact Key.ofText_eq_integer.mp (by decide +kernel)

/-- The store finds a register by another text of its number, a register whose number is too
large for the keys by its double, and a price by its text. None of them has the key of what it
was found by, and the register is not dealt out to the shift that it was found for. -/
theorem fetched_row_is_left_out :
    (Test.compareTruth registerFrame (register 1) "id" .equal (.text "01")).holds = true ∧
      (Value.integer 1).key? ≠ (Value.text "01").key? ∧
      shiftRegister.group [[("id", .integer 1)]] [("register_id", .text "01")] = [] ∧
    (Test.compareTruth registerFrame (register 9000000000000000) "id" .equal
        (.real (.ofInt 9000000000000000))).holds = true ∧
      (Value.integer 9000000000000000).key? ≠ (Value.real (.ofInt 9000000000000000)).key? ∧
    (Test.compareTruth priceFrame ⟨1, [.real (.ofRatio false 3 2)]⟩ "id" .equal
        (.text "1.5")).holds = true ∧
      (Value.real (.ofRatio false 3 2)).key? ≠ (Value.text "1.5").key? := by
  refine ⟨?_, ?_, ?_, ?_, ?_, ?_, ?_⟩
  · decide +kernel
  · decide +kernel
  · exact List.eq_nil_of_length_eq_zero (by decide +kernel)
  all_goals decide +kernel

end Relation

end Relata
