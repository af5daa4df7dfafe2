import Relata.Proofs.Document
import Relata.Proofs.Query.Shape

/-! # Flaws of filters

A filter is translated unless it is flawed: some test in it, at any depth, is of a field whose
name is not plain, or has an operand that its operator cannot bind. What a flawed filter is
refused for is the flaw that comes first. A test comes in front of its operands, so that the name
is what is found fault with if both are flawed.
-/

namespace Relata

def fault? {α : Type} : Except Fault α → Option Fault
  | .ok _ => none
  | .error e => some e

section

variable {α β γ : Type} {x : Except Fault α} {y : Except Fault β}

theorem fault?_eq_some {e : Fault} : fault? x = some e ↔ x = .error e := by
  cases x <;> simp [fault?]

theorem fault?_map (f : α → β) : fault? (x.map f) = fault? x := by
  cases x <;> rfl

theorem fault?_both (f : α → β → γ) :
    fault? (do let a ← x; let b ← y; return f a b) = (fault? x).or (fault? y) := by
  cases x <;> cases y <;> rfl

end

def Value.unbindable? : Value → Option Unbindable
  | .array _ => some (.kind .array)
  | .object _ => some (.kind .object)
  | .real x => if x.isFinite then none else some .nonFinite
  | _ => none

def Value.unseekable? : Value → Option Unbindable
  | .text _ => none
  | .integer _ => none
  | .real x => if x.isFinite then none else some (.kind .real)
  | v => some (.kind v.kind)

def Test.Bindable : Test → Prop
  | .compare _ v => v.Bindable
  | .among vs => ∀ v ∈ vs, v.Bindable
  | .outside vs => ∀ v ∈ vs, v.Bindable
  | .like _ v => v.IsNeedle
  | .isNull => True

namespace Filter

open Document

/-! ## Tests at any depth -/

/-- A test of a filter, or of a filter in one of its groups. -/
inductive Tests : Filter → String → Test → Prop
  | here {nodes : Filter} {field : String} {t : Test} (mem : .test field t ∈ nodes) :
      Tests nodes field t
  | within {nodes child : Filter} {c : Connective} {children : List Filter} {field : String}
      {t : Test} (mem : .group c children ∈ nodes) (one : child ∈ children)
      (deeper : Tests child field t) : Tests nodes field t

variable {field name : String} {t u : Test} {c : Connective} {nodes : Filter}
  {children : List Filter}

theorem not_tests_nil : ¬ Tests [] field t := by
  intro h
  cases h with
  | here mem => cases mem
  | within mem => cases mem

theorem tests_test_iff :
    Tests (.test name u :: nodes) field t ↔ (field = name ∧ t = u) ∨ Tests nodes field t := by
  constructor
  · intro h
    cases h with
    | here mem =>
      rcases List.mem_cons.mp mem with heq | mem
      · cases heq
        exact .inl ⟨rfl, rfl⟩
      · exact .inr (.here mem)
    | within mem one deeper =>
      rcases List.mem_cons.mp mem with heq | mem
      · cases heq
      · exact .inr (.within mem one deeper)
  · rintro (⟨rfl, rfl⟩ | h)
    · exact .here List.mem_cons_self
    · cases h with
      | here mem => exact .here (List.mem_cons_of_mem _ mem)
      | within mem one deeper => exact .within (List.mem_cons_of_mem _ mem) one deeper

theorem tests_group_iff :
    Tests (.group c children :: nodes) field t ↔
      (∃ child ∈ children, Tests child field t) ∨ Tests nodes field t := by
  constructor
  · intro h
    cases h with
    | here mem =>
      rcases List.mem_cons.mp mem with heq | mem
      · cases heq
      · exact .inr (.here mem)
    | within mem one deeper =>
      rcases List.mem_cons.mp mem with heq | mem
      · cases heq
        exact .inl ⟨_, one, deeper⟩
      · exact .inr (.within mem one deeper)
  · rintro (⟨child, one, deeper⟩ | h)
    · exact .within List.mem_cons_self one deeper
    · cases h with
      | here mem => exact .here (List.mem_cons_of_mem _ mem)
      | within mem one deeper => exact .within (List.mem_cons_of_mem _ mem) one deeper

/-! ## Which filters are translated -/

theorem checkedName_isOk_iff : (∃ s, checkedName name = .ok s) ↔ Text.PlainName name.toList := by
  constructor
  · rintro ⟨s, hs⟩
    exact (checkedName_eq_ok hs).2
  · intro plain
    exact ⟨name, checkedName_of_plain plain⟩

theorem scalars_isOk_iff {vs : List Value} :
    (∃ ss, Test.scalars field vs = .ok ss) ↔ ∀ v ∈ vs, v.Bindable := by
  induction vs with
  | nil => simp [Test.scalars]
  | cons v vs ih =>
    rw [Test.scalars, both_isOk_iff, Value.toScalar_isOk_iff, ih, List.forall_mem_cons]

theorem condition_isOk_iff : (∃ c, t.condition field = .ok c) ↔ t.Bindable := by
  fun_cases Test.condition field t with
  | case1 | case2 | case3 | case5 | case6 => simp [Test.Bindable, Value.Bindable]
  | case4 how v => exact map_isOk_iff.trans (Value.toScalar_isOk_iff field v)
  | case7 vs | case8 vs => exact map_isOk_iff.trans scalars_isOk_iff
  | case9 place v => exact map_isOk_iff.trans (Test.needle_isOk_iff v)

theorem nodeCondition?_test :
    nodeCondition? (.test field t) = do
      let _ ← checkedName field
      let c ← t.condition field
      return some c := by
  rw [nodeCondition?]
  by_cases plain : Text.PlainName field.toList
  · rw [checkedName_of_plain plain]
    rfl
  · rw [checkedName, if_neg (mt Text.isPlainName_iff.mp plain)]
    rfl

theorem parts_isOk_iff :
    (∃ ps, parts children = .ok ps) ↔ ∀ child ∈ children, ∃ cs, conditions child = .ok cs := by
  induction children with
  | nil => simp [parts]
  | cons child children ih => rw [parts, both_isOk_iff, ih, List.forall_mem_cons]

theorem nodeCondition?_group :
    nodeCondition? (.group c children) =
      (parts children).map fun ps => if ps.isEmpty then none else some (.group c ps) := by
  rw [nodeCondition?]
  cases parts children <;> rfl

theorem conditions_isOk_iff (filter : Filter) :
    (∃ cs, conditions filter = .ok cs) ↔
      ∀ field t, Tests filter field t → Text.PlainName field.toList ∧ t.Bindable := by
  induction filter using Filter.induction with
  | nil =>
    apply iff_of_true ⟨[], rfl⟩
    intro field t h
    exact (not_tests_nil h).elim
  | test name u nodes ih =>
    rw [conditions, both_isOk_iff, nodeCondition?_test, both_isOk_iff, checkedName_isOk_iff,
      condition_isOk_iff, ih]
    constructor
    · rintro ⟨hnode, hnodes⟩ field t h
      rcases tests_test_iff.mp h with ⟨rfl, rfl⟩ | h
      · exact hnode
      · exact hnodes field t h
    · intro h
      exact ⟨h name u (tests_test_iff.mpr (.inl ⟨rfl, rfl⟩)),
        fun field t ht => h field t (tests_test_iff.mpr (.inr ht))⟩
  | group c children nodes each ih =>
    rw [conditions, both_isOk_iff, nodeCondition?_group, map_isOk_iff, parts_isOk_iff, ih]
    constructor
    · rintro ⟨hchildren, hnodes⟩ field t h
      rcases tests_group_iff.mp h with ⟨child, one, h⟩ | h
      · exact (each child one).mp (hchildren child one) field t h
      · exact hnodes field t h
    · intro h
      constructor
      · intro child one
        apply (each child one).mpr
        intro field t ht
        exact h field t (tests_group_iff.mpr (.inl ⟨child, one, ht⟩))
      · intro field t ht
        exact h field t (tests_group_iff.mpr (.inr ht))

/-! ## The first flaw -/

/-- A part of a filter: a filter, a node, or an operand of a test that is compared with or looked
for. -/
inductive Part
  | filter (nodes : Filter)
  | node (node : Node)
  | operand (field : String) (v : Value)
  | needle (field : String) (v : Value)

namespace Part

def ofTest (field : String) : Test → List Part
  | .compare _ v => [.operand field v]
  | .among vs => vs.map (.operand field)
  | .outside vs => vs.map (.operand field)
  | .like _ v => [.needle field v]
  | .isNull => []

def parts : Part → List Part
  | .filter nodes => nodes.map .node
  | .node (.test field t) => ofTest field t
  | .node (.group _ children) => children.map .filter
  | .operand _ _ => []
  | .needle _ _ => []

def flaw? : Part → Option Fault
  | .filter _ => none
  | .node (.test field _) =>
    if Text.isPlainName field.toList then none else some (.badName field)
  | .node (.group _ _) => none
  | .operand field v => v.unbindable?.map (.unbindable field)
  | .needle field v => v.unseekable?.map (.unbindable field)

end Part

section

variable {part : Part} {parts : List Part} {found later : Option Fault}

/-- What is found first is wrong with a part, or with its parts at any depth. -/
def FirstFlaw (part : Part) (found : Option Fault) : Prop :=
  ∃ flaws, InOrder (Document.marked Part.parts Part.flaw? part) flaws ∧ flaws.head? = found

def FirstFlawIn (parts : List Part) (found : Option Fault) : Prop :=
  ∃ flaws, InOrder (markedIn Part.parts Part.flaw? parts) flaws ∧ flaws.head? = found

theorem firstFlawIn_nil : FirstFlawIn [] none :=
  ⟨[], inOrder_nil, rfl⟩

theorem firstFlawIn_cons (h : FirstFlaw part found) (rest : FirstFlawIn parts later) :
    FirstFlawIn (part :: parts) (found.or later) := by
  obtain ⟨flaws, hflaws, rfl⟩ := h
  obtain ⟨flaws', hflaws', rfl⟩ := rest
  exact ⟨flaws ++ flaws', inOrder_cons hflaws hflaws', List.head?_append⟩

theorem firstFlawIn_single (h : FirstFlaw part found) : FirstFlawIn [part] found := by
  simpa using firstFlawIn_cons h firstFlawIn_nil

/-- A part comes in front of its own parts. -/
theorem firstFlaw_of_parts (h : FirstFlawIn part.parts found) :
    FirstFlaw part (part.flaw?.or found) := by
  obtain ⟨flaws, hflaws, rfl⟩ := h
  refine ⟨_, inOrder_whole hflaws, ?_⟩
  rw [List.head?_append]
  cases part.flaw? <;> rfl

theorem firstFlaw_of_leaf (h : part.parts = []) : FirstFlaw part part.flaw? := by
  have hnone : FirstFlawIn part.parts none := by
    rw [h]
    exact firstFlawIn_nil
  simpa using firstFlaw_of_parts hnone

theorem FirstFlaw.first_iff (h : FirstFlaw part found) (e : Fault) :
    First (Document.marked Part.parts Part.flaw? part) e ↔ found = some e := by
  obtain ⟨flaws, hflaws, rfl⟩ := h
  exact hflaws.first_iff

end

theorem firstFlaw_operand (field : String) (v : Value) :
    FirstFlaw (.operand field v) (fault? (v.toScalar field)) := by
  have h : fault? (v.toScalar field) = Part.flaw? (.operand field v) := by
    cases v with
    | real x =>
      simp only [Value.toScalar, Part.flaw?, Value.unbindable?]
      split <;> rfl
    | _ => rfl
  rw [h]
  exact firstFlaw_of_leaf rfl

theorem firstFlaw_needle (field : String) (v : Value) :
    FirstFlaw (.needle field v) (fault? (Test.needle field v)) := by
  have h : fault? (Test.needle field v) = Part.flaw? (.needle field v) := by
    cases v with
    | real x =>
      simp only [Test.needle, Part.flaw?, Value.unseekable?]
      split <;> rfl
    | _ => rfl
  rw [h]
  exact firstFlaw_of_leaf rfl

theorem firstFlawIn_scalars (field : String) (vs : List Value) :
    FirstFlawIn (vs.map (.operand field)) (fault? (Test.scalars field vs)) := by
  induction vs with
  | nil => exact firstFlawIn_nil
  | cons v vs ih =>
    rw [Test.scalars, fault?_both]
    exact firstFlawIn_cons (firstFlaw_operand field v) ih

theorem firstFlawIn_condition (field : String) (t : Test) :
    FirstFlawIn (Part.ofTest field t) (fault? (t.condition field)) := by
  have hnull := firstFlawIn_single (firstFlaw_operand field .null)
  fun_cases Test.condition field t with
  | case1 => exact firstFlawIn_nil
  | case2 | case3 => exact hnull
  | case4 how v =>
    rw [fault?_map]
    exact firstFlawIn_single (firstFlaw_operand field v)
  | case5 | case6 => exact firstFlawIn_nil
  | case7 vs | case8 vs =>
    rw [fault?_map]
    exact firstFlawIn_scalars field vs
  | case9 place v =>
    rw [fault?_map]
    exact firstFlawIn_single (firstFlaw_needle field v)

theorem firstFlaw_test (field : String) (t : Test) :
    FirstFlaw (.node (.test field t)) (fault? (nodeCondition? (.test field t))) := by
  have hname : fault? (checkedName field) = Part.flaw? (.node (.test field t)) := by
    simp only [checkedName, Part.flaw?]
    split <;> rfl
  rw [nodeCondition?_test, fault?_both, hname]
  exact firstFlaw_of_parts (firstFlawIn_condition field t)

theorem firstFlawIn_parts
    (each : ∀ child ∈ children, FirstFlaw (.filter child) (fault? (conditions child))) :
    FirstFlawIn (children.map .filter) (fault? (parts children)) := by
  induction children with
  | nil => exact firstFlawIn_nil
  | cons child children ih =>
    obtain ⟨first, each⟩ := List.forall_mem_cons.mp each
    rw [parts, fault?_both]
    exact firstFlawIn_cons first (ih each)

theorem firstFlaw_conditions (filter : Filter) :
    FirstFlaw (.filter filter) (fault? (conditions filter)) := by
  suffices h : FirstFlawIn (filter.map .node) (fault? (conditions filter)) by
    exact firstFlaw_of_parts h
  induction filter using Filter.induction with
  | nil => exact firstFlawIn_nil
  | test field t nodes ih =>
    rw [conditions, fault?_both]
    exact firstFlawIn_cons (firstFlaw_test field t) ih
  | group c children nodes each ih =>
    have hchildren : FirstFlaw (.node (.group c children)) (fault? (parts children)) := by
      apply firstFlaw_of_parts
      apply firstFlawIn_parts
      intro child one
      exact firstFlaw_of_parts (each child one)
    rw [conditions, fault?_both, nodeCondition?_group, fault?_map]
    exact firstFlawIn_cons hchildren ih

/-- A filter is refused exactly if it has a test, at any depth, of a name that is not plain or
with an operand that cannot be bound, and it is refused for the flaw that comes first. -/
theorem refused_for_first_flaw (filter : Filter) :
    ((∃ e, conditions filter = .error e) ↔
      ∃ field t, Tests filter field t ∧ ¬ (Text.PlainName field.toList ∧ t.Bindable)) ∧
      ∀ e, conditions filter = .error e ↔
        First (Document.marked Part.parts Part.flaw? (.filter filter)) e := by
  constructor
  · have hok := conditions_isOk_iff filter
    have herror : (∃ e, conditions filter = .error e) ↔ ¬ ∃ cs, conditions filter = .ok cs := by
      cases conditions filter <;> simp
    rw [herror, hok]
    push Not
    rfl
  · intro e
    rw [(firstFlaw_conditions filter).first_iff, fault?_eq_some]

end Filter

end Relata
