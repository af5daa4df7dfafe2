import Relata.Proofs.Query.Meaning

/-! # The rows that a filter selects

A filter selects a row if it can be translated and its conditions hold of the row. What a list
of operands selects is what its operands select one by one, unless they are null: a null is
compared like any other operand of a list, so it is equal to nothing, and different from nothing.
-/

namespace Relata

open Text

namespace Truth

theorem holds_not_any (ts : List Truth) : (any ts).not.holds = ts.all fun t => t.not.holds := by
  induction ts with
  | nil => rfl
  | cons t ts ih =>
    have hany : any (t :: ts) = t.or (any ts) := rfl
    rw [hany, not_or, holds_and, ih, List.all_cons]

end Truth

theorem Comparison.truth_different (a b : Scalar) :
    Comparison.truth .different a b = (Comparison.truth .equal a b).not := by
  unfold Comparison.truth
  split
  · rfl
  · simp [Truth.not, Comparison.accepts, bne]

namespace Test

variable (f : Frame) (row : Row) (field : String)

theorem compareTruth_null (how : Comparison) : compareTruth f row field how .null = none := by
  have hoperand : (f.affinity field).operand .null = .null := by
    cases f.affinity field <;> rfl
  simp [compareTruth, Value.toScalar, hoperand, Comparison.truth, Scalar.isNull]

theorem compareTruth_different (v : Value) :
    compareTruth f row field .different v = (compareTruth f row field .equal v).not := by
  unfold compareTruth
  split
  · exact Comparison.truth_different _ _
  · rfl

theorem truth_compare {how : Comparison} {v : Value} (present : v.isNull = false) :
    Test.truth f row field (.compare how v) = compareTruth f row field how v := by
  cases v with
  | null => cases present
  | _ => cases how <;> rfl

variable {field} {v : Value} {vs : List Value}

theorem exists_scalars (bindable : ∀ v ∈ vs, v.Bindable) : ∃ ss, scalars field vs = .ok ss := by
  induction vs with
  | nil => exact ⟨[], rfl⟩
  | cons v vs ih =>
    obtain ⟨hv, hvs⟩ := List.forall_mem_cons.mp bindable
    obtain ⟨s, hs⟩ := (v.toScalar_isOk_iff field).mpr hv
    obtain ⟨ss, hss⟩ := ih hvs
    exact ⟨s :: ss, by rw [scalars, hs, hss]; rfl⟩

theorem exists_condition_compare (how : Comparison) (bindable : v.Bindable) :
    ∃ c, condition field (.compare how v) = .ok c := by
  obtain ⟨s, hs⟩ := (v.toScalar_isOk_iff field).mpr bindable
  by_cases hnull : v = .null
  · subst hnull
    cases how <;> exact ⟨_, rfl⟩
  · rw [condition_compare (fun _ => hnull) fun _ => hnull, hs]
    exact ⟨_, rfl⟩

theorem exists_condition_listed (bindable : ∀ v ∈ vs, v.Bindable) :
    (∃ c, condition field (.among vs) = .ok c) ∧ ∃ c, condition field (.outside vs) = .ok c := by
  obtain ⟨ss, hss⟩ := @exists_scalars field vs bindable
  by_cases hvs : vs = []
  · subst hvs
    exact ⟨⟨_, rfl⟩, ⟨_, rfl⟩⟩
  · rw [condition_among hvs, condition_outside hvs, hss]
    exact ⟨⟨_, rfl⟩, ⟨_, rfl⟩⟩

end Test

namespace Filter

/-- A filter that can be translated selects a row of which its conditions hold. -/
def Selects (f : Frame) (filter : Filter) (row : Row) : Prop :=
  ∃ cs, conditions filter = .ok cs ∧ Condition.selects f cs row = true

section

variable {field : String} {t : Test} {c : Condition} (plain : PlainName field.toList)
  (hc : t.condition field = .ok c)

include plain hc

theorem conditions_single : conditions [.test field t] = .ok [c] := by
  rw [conditions, nodeCondition?, checkedName_of_plain plain]
  simp only [Bind.bind, Except.bind, hc]
  rfl

theorem selects_single_iff (f : Frame) (row : Row) :
    Selects f [.test field t] row ↔ (t.truth f row field).holds = true := by
  have hcs := conditions_single plain hc
  have hselects : Condition.selects f [c] row = (t.truth f row field).holds := by
    rw [Condition.selects, Condition.all_truths, conjunctionTruth_conditions hcs, truth, truth,
      nodeTruth, Truth.and_true]
  constructor
  · rintro ⟨cs, h, hs⟩
    cases hcs.symm.trans h
    rwa [← hselects]
  · intro h
    exact ⟨[c], hcs, by rwa [hselects]⟩

end

variable {field : String} {vs : List Value}

/-- A list selects what one of its operands that is not null is equal to; what is outside of it
is what all its operands are different from, and of these none may be null. -/
theorem lists_select_by_values (plain : PlainName field.toList)
    (bindable : ∀ v ∈ vs, v.Bindable) (f : Frame) (row : Row) :
    (∃ cs, conditions [.test field (.among vs)] = .ok cs) ∧
    (∃ cs, conditions [.test field (.outside vs)] = .ok cs) ∧
    (Selects f [.test field (.among vs)] row ↔
      ∃ v ∈ vs, v.isNull = false ∧ Selects f [.test field (.compare .equal v)] row) ∧
    (Selects f [.test field (.outside vs)] row ↔
      ∀ v ∈ vs, v.isNull = false ∧ Selects f [.test field (.compare .different v)] row) := by
  obtain ⟨⟨among, hamong⟩, ⟨outside, houtside⟩⟩ := Test.exists_condition_listed bindable
  have compares (how : Comparison) {v : Value} (hv : v ∈ vs) :
      (Test.compareTruth f row field how v).holds = true ↔
        v.isNull = false ∧ Selects f [.test field (.compare how v)] row := by
    obtain ⟨c, hc⟩ := Test.exists_condition_compare how (bindable v hv)
    rw [selects_single_iff plain hc]
    cases hnull : v.isNull with
    | false => simp [Test.truth_compare f row field hnull]
    | true =>
      cases v with
      | null => simp [Test.compareTruth_null, Truth.holds]
      | _ => cases hnull
  refine ⟨⟨_, conditions_single plain hamong⟩, ⟨_, conditions_single plain houtside⟩, ?_, ?_⟩
  · rw [selects_single_iff plain hamong, Test.truth, Test.amongTruth, Truth.holds_any,
      List.any_map, List.any_eq_true]
    constructor
    · rintro ⟨v, hv, h⟩
      exact ⟨v, hv, (compares .equal hv).mp h⟩
    · rintro ⟨v, hv, h⟩
      exact ⟨v, hv, (compares .equal hv).mpr h⟩
  · rw [selects_single_iff plain houtside, Test.truth, Test.amongTruth, Truth.holds_not_any,
      List.all_map, List.all_eq_true]
    refine forall₂_congr fun v hv => ?_
    rw [← compares .different hv, Test.compareTruth_different]
    rfl

def orderFrame : Frame where
  definition :=
    { name := "orders"
      columns := [{ name := "id", affinity := .text }, { name := "status", affinity := .text }] }

def openOrder : Row :=
  ⟨1, [.text "o1", .text "OPEN"]⟩

def newOrder : Row :=
  ⟨2, [.text "o2", .null]⟩

theorem bindable_open : ∀ v ∈ [Value.text "OPEN", .null], v.Bindable := by
  simp [Value.Bindable]

/-- An open order is among those that are open or null, and no order is outside of them. -/
theorem lists_select_by_values_open :
    (∀ v ∈ [Value.text "OPEN", .null], v.Bindable) ∧
    Selects orderFrame [.test "status" (.among [.text "OPEN", .null])] openOrder ∧
    ∀ row, ¬ Selects orderFrame [.test "status" (.outside [.text "OPEN", .null])] row := by
  have plain : PlainName "status".toList := isPlainName_iff.mp rfl
  refine ⟨bindable_open, ?_, ?_⟩
  · obtain ⟨-, -, hamong, -⟩ := lists_select_by_values plain bindable_open orderFrame openOrder
    exact hamong.mpr ⟨.text "OPEN", by simp, rfl, _, rfl, rfl⟩
  · intro row h
    obtain ⟨-, -, -, houtside⟩ := lists_select_by_values plain bindable_open orderFrame row
    obtain ⟨hnull, -⟩ := houtside.mp h .null (by simp)
    cases hnull

/-- An order whose status is asked to be null is found, but not if null is one of a list; nor is
an order found whose status is asked to be outside of a list with a null. -/
theorem null_in_list_compares :
    ¬(Selects orderFrame [.test "status" (.among [.null])] newOrder ↔
      ∃ v ∈ [Value.null], Selects orderFrame [.test "status" (.compare .equal v)] newOrder) ∧
    ¬(Selects orderFrame [.test "status" (.outside [.null])] openOrder ↔
      ∀ v ∈ [Value.null],
        Selects orderFrame [.test "status" (.compare .different v)] openOrder) := by
  constructor
  · intro h
    obtain ⟨cs, hcs, hselects⟩ := h.mpr ⟨.null, by simp, _, rfl, rfl⟩
    cases hcs
    cases hselects
  · intro h
    obtain ⟨cs, hcs, hselects⟩ := h.mpr (by simpa using ⟨_, rfl, rfl⟩)
    cases hcs
    cases hselects

end Filter

end Relata
