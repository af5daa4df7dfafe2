import Relata.Proofs.Value.Bounded
import Relata.Query.Filter

/-! # The grammar of filters

A filter is written as an object. Each of its members asks something of a field or joins filters
to a group, and the nodes of the filter are those of its members one after another. Words that
are no operators are passed over.
-/

namespace Relata.Filter

/-! ## Operators -/

/-- What an operator makes its test of: a value, or the values of a list. -/
inductive Operator
  | ofValue (make : Value → Test)
  | ofList (make : List Value → Test)

def operators : List (String × Operator) :=
  [("equals", .ofValue (.compare .equal)), ("not", .ofValue (.compare .different)),
    ("in", .ofList .among), ("notIn", .ofList .outside), ("lt", .ofValue (.compare .less)),
    ("lte", .ofValue (.compare .atMost)), ("gt", .ofValue (.compare .greater)),
    ("gte", .ofValue (.compare .atLeast)), ("contains", .ofValue (.like .anywhere)),
    ("startsWith", .ofValue (.like .atStart)), ("endsWith", .ofValue (.like .atEnd))]

/-- The operator of a word; the other words are passed over. -/
def operator? (word : String) : Option Operator :=
  operators.lookup word

theorem testOfJson?_eq (field word : String) (operand : Json) :
    testOfJson? field word operand =
      match operator? word with
      | some (.ofValue make) => (Value.ofJson field operand).map fun v => some (make v)
      | some (.ofList make) => (Filter.operands word field operand).map fun vs => some (make vs)
      | none => .ok none := by
  rw [testOfJson?.eq_def]
  split
  case h_12 =>
    have hnone : operator? word = none := by
      simp_all [operator?, operators, List.lookup_eq_none_iff]
    rw [hnone]
  all_goals rfl

def IsOperand (word : String) (operand : Json) : Prop :=
  match operator? word with
  | some (.ofValue _) => operand.Bounded
  | some (.ofList _) => (∃ items, operand = .array items) ∧ operand.Bounded
  | none => True

theorem operands_isOk_iff {word field : String} {operand : Json} :
    (∃ vs, operands word field operand = .ok vs) ↔
      (∃ items, operand = .array items) ∧ operand.Bounded := by
  cases operand with
  | array items =>
    rw [operands, Value.ofItems_isOk_iff, Json.bounded_array_iff]
    simp [Value.ofJson_isOk_iff]
  | _ => simp [operands]

theorem testOfJson?_isOk_iff {field word : String} {operand : Json} :
    (∃ t, testOfJson? field word operand = .ok t) ↔ IsOperand word operand := by
  rw [testOfJson?_eq, IsOperand]
  cases operator? word with
  | none => simp
  | some operator =>
    cases operator with
    | ofValue make => exact map_isOk_iff.trans (Value.ofJson_isOk_iff operand field)
    | ofList make => exact map_isOk_iff.trans operands_isOk_iff

theorem testsOfJson_isOk_iff {field : String} {members : List (String × Json)} :
    (∃ f, testsOfJson field members = .ok f) ↔
      ∀ member ∈ members, IsOperand member.1 member.2 := by
  induction members with
  | nil => simp [testsOfJson]
  | cons member members ih =>
    rw [testsOfJson, both_isOk_iff, testOfJson?_isOk_iff, ih, List.forall_mem_cons]

/-! ## Accepted data -/

/-- What may be asked of a field: a scalar, or operators with their operands. -/
inductive IsAsked : Json → Prop
  | scalar {j : Json} (plain : j.IsScalar) (bounded : j.Bounded) : IsAsked j
  | operators {members : List (String × Json)}
      (each : ∀ member ∈ members, IsOperand member.1 member.2) : IsAsked (.object members)

theorem ofField_of_scalar (field : String) {j : Json} (plain : j.IsScalar) (given : j ≠ .null) :
    ofField field j = (Value.ofJson field j).map fun v => [.test field (.compare .equal v)] := by
  cases j with
  | null => exact (given rfl).elim
  | array => exact plain.elim
  | object => exact plain.elim
  | _ => rfl

theorem isAsked_iff_of_scalar {j : Json} (plain : j.IsScalar) : IsAsked j ↔ j.Bounded := by
  refine ⟨fun h => ?_, .scalar plain⟩
  cases h with
  | scalar _ bounded => exact bounded
  | operators => exact plain.elim

theorem ofField_isOk_iff {field : String} {j : Json} :
    (∃ f, ofField field j = .ok f) ↔ IsAsked j := by
  induction j using Json.induct with
  | scalar j plain =>
    rw [isAsked_iff_of_scalar plain]
    by_cases given : j = .null
    · subst given
      exact iff_of_true ⟨_, rfl⟩ fun _ h => nomatch h
    · rw [ofField_of_scalar field plain given, map_isOk_iff, Value.ofJson_isOk_iff]
  | array items =>
    refine iff_of_false (fun ⟨f, h⟩ => nomatch h) fun h => ?_
    cases h with
    | scalar plain => exact plain
  | object members =>
    rw [ofField, testsOfJson_isOk_iff]
    refine ⟨.operators, fun h => ?_⟩
    cases h with
    | scalar plain => exact plain.elim
    | operators each => exact each

mutual

/-- The data that filters are written as. -/
inductive IsFilter : Json → Prop
  | null : IsFilter .null
  | object {members : List (String × Json)}
      (fields : ∀ name item, (name, item) ∈ members → connective? name = none → IsAsked item)
      (groups : ∀ name item c, (name, item) ∈ members → connective? name = some c → IsGroup item) :
      IsFilter (.object members)

/-- The data that groups are written as: a list of filters, or a single one. -/
inductive IsGroup : Json → Prop
  | list {items : List Json} (each : ∀ item ∈ items, IsFilter item) : IsGroup (.array items)
  | single {j : Json} (one : IsFilter j) : IsGroup j

end

def ofMember (name : String) (item : Json) : Except Fault Filter :=
  match connective? name with
  | some c => (childrenOfJson item).map fun children => [.group c children]
  | none => ofField name item

theorem ofMembers_cons (name : String) (item : Json) (members : List (String × Json)) :
    ofMembers ((name, item) :: members) = do
      let nodes ← ofMember name item
      let rest ← ofMembers members
      return nodes ++ rest := by
  rw [ofMembers, ofMember]
  cases connective? name with
  | none => rfl
  | some c => cases childrenOfJson item <;> rfl

theorem childrenOfJson_of_filter {j : Json} (h : ∀ items, j ≠ .array items) :
    childrenOfJson j = (ofJson j).map fun f => [f] := by
  cases j with
  | array items => exact (h items rfl).elim
  | _ => rfl

theorem ofItems_isOk_iff {items : List Json} :
    (∃ fs, ofItems items = .ok fs) ↔ ∀ item ∈ items, ∃ f, ofJson item = .ok f := by
  induction items with
  | nil => simp [ofItems]
  | cons item items ih => rw [ofItems, both_isOk_iff, ih, List.forall_mem_cons]

theorem ofMembers_isOk_iff {members : List (String × Json)} :
    (∃ f, ofMembers members = .ok f) ↔
      ∀ member ∈ members, ∃ f, ofMember member.1 member.2 = .ok f := by
  induction members with
  | nil => simp [ofMembers]
  | cons member members ih => rw [ofMembers_cons, both_isOk_iff, ih, List.forall_mem_cons]

theorem isGroup_iff_of_filter {j : Json} (h : ∀ items, j ≠ .array items) :
    IsGroup j ↔ IsFilter j := by
  refine ⟨fun hj => ?_, .single⟩
  cases hj with
  | list => exact (h _ rfl).elim
  | single one => exact one

theorem ofJson_isOk_iff (j : Json) :
    ((∃ f, ofJson j = .ok f) ↔ IsFilter j) ∧ ((∃ fs, childrenOfJson j = .ok fs) ↔ IsGroup j) := by
  have group {j : Json} (hj : ∀ items, j ≠ .array items)
      (h : (∃ f, ofJson j = .ok f) ↔ IsFilter j) :
      ((∃ f, ofJson j = .ok f) ↔ IsFilter j) ∧
        ((∃ fs, childrenOfJson j = .ok fs) ↔ IsGroup j) := by
    rw [childrenOfJson_of_filter hj, map_isOk_iff, isGroup_iff_of_filter hj]
    exact ⟨h, h⟩
  induction j using Json.induct with
  | scalar j plain =>
    refine group (by rintro items rfl; exact plain) ?_
    cases j with
    | null => exact iff_of_true ⟨[], rfl⟩ .null
    | array => exact plain.elim
    | object => exact plain.elim
    | _ => exact iff_of_false (fun ⟨f, h⟩ => nomatch h) fun h => nomatch h
  | array items ih =>
    refine ⟨iff_of_false (fun ⟨f, h⟩ => nomatch h) (fun h => nomatch h), ?_⟩
    rw [childrenOfJson, ofItems_isOk_iff]
    refine ⟨fun h => .list fun item mem => (ih item mem).1.mp (h item mem), fun h item mem => ?_⟩
    cases h with
    | list each => exact (ih item mem).1.mpr (each item mem)
    | single one => cases one
  | object members ih =>
    refine group (fun items h => nomatch h) ?_
    rw [ofJson, ofMembers_isOk_iff]
    constructor
    · intro h
      refine .object (fun name item mem hname => ?_) fun name item c mem hname => ?_
      · have := h (name, item) mem
        rw [ofMember, hname] at this
        exact ofField_isOk_iff.mp this
      · have := h (name, item) mem
        rw [ofMember, hname] at this
        exact (ih (name, item) mem).2.mp (map_isOk_iff.mp this)
    · rintro h ⟨name, item⟩ mem
      cases h with
      | object fields groups =>
        rw [ofMember]
        cases hname : connective? name with
        | none => exact ofField_isOk_iff.mpr (fields name item mem hname)
        | some c =>
          exact map_isOk_iff.mpr ((ih (name, item) mem).2.mpr (groups name item c mem hname))

/-! ## What is read -/

/-- The tests of what is asked of a field: one for each operator. -/
inductive Asks (field : String) : Json → Filter → Prop
  | null : Asks field .null [.test field .isNull]
  | scalar {j : Json} {v : Value} (plain : j.IsScalar) (given : j ≠ .null)
      (value : Value.ofJson field j = .ok v) : Asks field j [.test field (.compare .equal v)]
  | nil : Asks field (.object []) []
  | value {word : String} {operand : Json} {members : List (String × Json)} {tests : Filter}
      {make : Value → Test} {v : Value} (known : operator? word = some (.ofValue make))
      (value : Value.ofJson field operand = .ok v) (later : Asks field (.object members) tests) :
      Asks field (.object ((word, operand) :: members)) (.test field (make v) :: tests)
  | list {word : String} {items : List Json} {members : List (String × Json)} {tests : Filter}
      {make : List Value → Test} {vs : List Value} (known : operator? word = some (.ofList make))
      (values : Value.ofItems field items = .ok vs) (later : Asks field (.object members) tests) :
      Asks field (.object ((word, .array items) :: members)) (.test field (make vs) :: tests)
  | ignored {word : String} {operand : Json} {members : List (String × Json)} {tests : Filter}
      (unknown : operator? word = none) (later : Asks field (.object members) tests) :
      Asks field (.object ((word, operand) :: members)) tests

mutual

/-- The nodes of a filter, those of each member behind those of the members before it. -/
inductive Reads : Json → Filter → Prop
  | null : Reads .null []
  | nil : Reads (.object []) []
  | field {name : String} {item : Json} {members : List (String × Json)} {tests rest : Filter}
      (plain : connective? name = none) (asks : Asks name item tests)
      (later : Reads (.object members) rest) :
      Reads (.object ((name, item) :: members)) (tests ++ rest)
  | group {name : String} {item : Json} {members : List (String × Json)} {c : Connective}
      {children : List Filter} {rest : Filter} (word : connective? name = some c)
      (each : ReadsGroup item children) (later : Reads (.object members) rest) :
      Reads (.object ((name, item) :: members)) (.group c children :: rest)

inductive ReadsGroup : Json → List Filter → Prop
  | nil : ReadsGroup (.array []) []
  | cons {item : Json} {items : List Json} {child : Filter} {children : List Filter}
      (first : Reads item child) (later : ReadsGroup (.array items) children) :
      ReadsGroup (.array (item :: items)) (child :: children)
  | single {j : Json} {child : Filter} (one : Reads j child) : ReadsGroup j [child]

end

theorem operands_eq_ok_iff {word field : String} {operand : Json} {vs : List Value} :
    operands word field operand = .ok vs ↔
      ∃ items, operand = .array items ∧ Value.ofItems field items = .ok vs := by
  cases operand <;> simp [operands]

theorem testsOfJson_eq_ok_iff {field : String} {members : List (String × Json)} {tests : Filter} :
    testsOfJson field members = .ok tests ↔ Asks field (.object members) tests := by
  induction members generalizing tests with
  | nil =>
    constructor
    · rintro ⟨⟩
      exact .nil
    · intro h
      cases h with
      | scalar plain => exact plain.elim
      | nil => rfl
  | cons member members ih =>
    obtain ⟨word, operand⟩ := member
    rw [testsOfJson, both_eq_ok, testOfJson?_eq]
    constructor
    · rintro ⟨t, ts, ht, hts, rfl⟩
      have later := ih.mp hts
      split at ht
      case h_1 known =>
        obtain ⟨v, hv, rfl⟩ := map_eq_ok.mp ht
        exact .value known hv later
      case h_2 known =>
        obtain ⟨vs, hvs, rfl⟩ := map_eq_ok.mp ht
        obtain ⟨items, rfl, hitems⟩ := operands_eq_ok_iff.mp hvs
        exact .list known hitems later
      case h_3 unknown =>
        cases ht
        exact .ignored unknown later
    · intro h
      cases h with
      | scalar plain => exact plain.elim
      | value known value later =>
        rw [known]
        exact ⟨_, _, map_eq_ok.mpr ⟨_, value, rfl⟩, ih.mpr later, rfl⟩
      | list known values later =>
        rw [known]
        exact ⟨_, _, map_eq_ok.mpr ⟨_, operands_eq_ok_iff.mpr ⟨_, rfl, values⟩, rfl⟩,
          ih.mpr later, rfl⟩
      | ignored unknown later =>
        rw [unknown]
        exact ⟨_, _, rfl, ih.mpr later, rfl⟩

theorem ofField_eq_ok_iff {field : String} {j : Json} {tests : Filter} :
    ofField field j = .ok tests ↔ Asks field j tests := by
  induction j using Json.induct with
  | scalar j plain =>
    by_cases given : j = .null
    · subst given
      constructor
      · rintro ⟨⟩
        exact .null
      · intro h
        cases h with
        | null => rfl
        | scalar _ given => exact (given rfl).elim
    · rw [ofField_of_scalar field plain given, map_eq_ok]
      constructor
      · rintro ⟨v, hv, rfl⟩
        exact .scalar plain given hv
      · intro h
        cases h with
        | null => exact (given rfl).elim
        | scalar _ _ value => exact ⟨_, value, rfl⟩
        | _ => exact plain.elim
  | array items =>
    refine iff_of_false (fun h => nomatch h) fun h => ?_
    cases h with
    | scalar plain => exact plain
  | object members => rw [ofField, testsOfJson_eq_ok_iff]

theorem readsGroup_of_filter {j : Json} (h : ∀ items, j ≠ .array items) {fs : List Filter} :
    ReadsGroup j fs ↔ ∃ f, Reads j f ∧ [f] = fs := by
  constructor
  · intro hj
    cases hj with
    | nil => exact (h _ rfl).elim
    | cons => exact (h _ rfl).elim
    | single one => exact ⟨_, one, rfl⟩
  · rintro ⟨f, one, rfl⟩
    exact .single one

theorem ofItems_eq_ok_iff {items : List Json}
    (each : ∀ item ∈ items, ∀ f, ofJson item = .ok f ↔ Reads item f) {fs : List Filter} :
    ofItems items = .ok fs ↔ ReadsGroup (.array items) fs := by
  induction items generalizing fs with
  | nil =>
    constructor
    · rintro ⟨⟩
      exact .nil
    · intro h
      cases h with
      | nil => rfl
      | single one => exact nomatch one
  | cons item items ih =>
    obtain ⟨first, each⟩ := List.forall_mem_cons.mp each
    rw [ofItems, both_eq_ok]
    constructor
    · rintro ⟨f, fs, hf, hfs, rfl⟩
      exact .cons ((first f).mp hf) ((ih each).mp hfs)
    · intro h
      cases h with
      | cons one later => exact ⟨_, _, (first _).mpr one, (ih each).mpr later, rfl⟩
      | single one => exact nomatch one

theorem ofMembers_eq_ok_iff {members : List (String × Json)}
    (each : ∀ member ∈ members, ∀ fs, childrenOfJson member.2 = .ok fs ↔ ReadsGroup member.2 fs)
    {f : Filter} : ofMembers members = .ok f ↔ Reads (.object members) f := by
  induction members generalizing f with
  | nil =>
    constructor
    · rintro ⟨⟩
      exact .nil
    · intro h
      cases h with
      | nil => rfl
  | cons member members ih =>
    obtain ⟨name, item⟩ := member
    obtain ⟨group, each⟩ := List.forall_mem_cons.mp each
    rw [ofMembers_cons, both_eq_ok, ofMember]
    constructor
    · rintro ⟨nodes, rest, hnodes, hrest, rfl⟩
      have later := (ih each).mp hrest
      cases hname : connective? name with
      | none =>
        rw [hname] at hnodes
        exact .field hname (ofField_eq_ok_iff.mp hnodes) later
      | some c =>
        rw [hname] at hnodes
        obtain ⟨fs, hfs, rfl⟩ := map_eq_ok.mp hnodes
        exact .group hname ((group fs).mp hfs) later
    · intro h
      cases h with
      | field plain asks later =>
        rw [plain]
        exact ⟨_, _, ofField_eq_ok_iff.mpr asks, (ih each).mpr later, rfl⟩
      | group word fs later =>
        rw [word]
        exact ⟨_, _, map_eq_ok.mpr ⟨_, (group _).mpr fs, rfl⟩, (ih each).mpr later, rfl⟩

/-- The filter or the group that is read of a datum. -/
theorem ofJson_eq_ok_iff (j : Json) :
    (∀ f, ofJson j = .ok f ↔ Reads j f) ∧ ∀ fs, childrenOfJson j = .ok fs ↔ ReadsGroup j fs := by
  have group {j : Json} (hj : ∀ items, j ≠ .array items) (h : ∀ f, ofJson j = .ok f ↔ Reads j f) :
      (∀ f, ofJson j = .ok f ↔ Reads j f) ∧
        ∀ fs, childrenOfJson j = .ok fs ↔ ReadsGroup j fs := by
    refine ⟨h, fun fs => ?_⟩
    rw [childrenOfJson_of_filter hj, map_eq_ok, readsGroup_of_filter hj]
    exact exists_congr fun f => and_congr_left' (h f)
  induction j using Json.induct with
  | scalar j plain =>
    refine group (by rintro items rfl; exact plain) fun f => ?_
    cases j with
    | null =>
      constructor
      · rintro ⟨⟩
        exact .null
      · rintro ⟨⟩
        rfl
    | array => exact plain.elim
    | object => exact plain.elim
    | _ => exact iff_of_false (fun h => nomatch h) (fun h => nomatch h)
  | array items ih =>
    refine ⟨fun f => iff_of_false (fun h => nomatch h) (fun h => nomatch h), fun fs => ?_⟩
    rw [childrenOfJson, ofItems_eq_ok_iff fun item mem => (ih item mem).1]
  | object members ih =>
    refine group (fun items h => nomatch h) fun f => ?_
    rw [ofJson, ofMembers_eq_ok_iff fun member mem => (ih member mem).2]

end Relata.Filter
