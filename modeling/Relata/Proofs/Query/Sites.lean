import Relata.Proofs.Document
import Relata.Proofs.Query.Grammar

/-! # Places in filters

Each place in the data of a filter is there for something: a filter, a group, what is asked of a
field, an operand, or a value. What is wrong with a place, and which field it tests, is up to what
it is there for. Reading stops at the first place with which something is wrong, and the fields of
a filter are those that its places test, in the order in which they are written.
-/

namespace Relata.Filter

open Document

inductive Role
  | filter
  | group
  | asked (field : String)
  | operand (field word : String)
  | value (field : String)

/-- A datum and what it is there for. -/
abbrev Site := Role × Json

def roleOf (name : String) : Role :=
  match connective? name with
  | some _ => .group
  | none => .asked name

def partsOf : Site → List Site
  | (.filter, .object members) => members.map fun member => (roleOf member.1, member.2)
  | (.filter, _) => []
  | (.group, .array items) => items.map fun item => (.filter, item)
  | (.group, j) => [(.filter, j)]
  | (.asked field, .object members) =>
    members.map fun member => (.operand field member.1, member.2)
  | (.asked _, .array _) => []
  | (.asked field, j) => [(.value field, j)]
  | (.operand field word, operand) =>
    match operator? word, operand with
    | some (.ofValue _), operand => [(.value field, operand)]
    | some (.ofList _), .array items => items.map fun item => (.value field, item)
    | _, _ => []
  | (.value field, .array items) => items.map fun item => (.value field, item)
  | (.value _, .object members) => members.map fun member => (.value member.1, member.2)
  | (.value _, _) => []

def wrong? : Site → Option Fault
  | (.filter, .null) => none
  | (.filter, .object _) => none
  | (.filter, j) => some (.malformed (.notObject "where" j.kind))
  | (.group, _) => none
  | (.asked field, .array _) => some (.unbindable field (.kind .array))
  | (.asked _, _) => none
  | (.operand field word, operand) =>
    match operator? word, operand with
    | some (.ofList _), .array _ => none
    | some (.ofList _), operand => some (.malformed (.notList word field operand.kind))
    | _, _ => none
  | (.value field, .number (.beyond _)) => some (.unbindable field .beyond)
  | (.value _, _) => none

def tested? : Site → Option String
  | (.asked _, .object _) => none
  | (.asked field, _) => some field
  | (.operand field word, _) => (operator? word).map fun _ => field
  | _ => none

/-- What reading gives, by the faults that there are and the fields that are tested, each in the
order in which they are written. -/
inductive Settled {α : Type} (fieldsOf : α → List String) :
    Except Fault α → List Fault → List String → Prop
  | ok (a : α) : Settled fieldsOf (.ok a) [] (fieldsOf a)
  | error (e : Fault) (later : List Fault) (names : List String) :
      Settled fieldsOf (.error e) (e :: later) names

section

variable {α β γ : Type} {fieldsOf : α → List String} {fieldsOf' : β → List String}
  {fieldsOf'' : γ → List String} {faults faults' : List Fault} {names names' : List String}
  {x : Except Fault α} {y : Except Fault β}

theorem Settled.both {f : α → β → γ} (hx : Settled fieldsOf x faults names)
    (hy : Settled fieldsOf' y faults' names')
    (hf : ∀ a b, fieldsOf'' (f a b) = fieldsOf a ++ fieldsOf' b) :
    Settled fieldsOf'' (do let a ← x; let b ← y; return f a b) (faults ++ faults')
      (names ++ names') := by
  cases hx with
  | ok a =>
    cases hy with
    | ok b => exact hf a b ▸ .ok (f a b)
    | error e later names' => exact .error e later _
  | error e later names => exact .error e (later ++ faults') _

theorem Settled.map {f : α → β} (more : List String) (hx : Settled fieldsOf x faults names)
    (hf : ∀ a, fieldsOf' (f a) = more ++ fieldsOf a) :
    Settled fieldsOf' (x.map f) faults (more ++ names) := by
  cases hx with
  | ok a => exact hf a ▸ .ok (f a)
  | error e later names => exact .error e later _

/-- What reading a site gives is settled by its places. -/
def Reading (fieldsOf : α → List String) (s : Site) (x : Except Fault α) : Prop :=
  ∃ faults names, InOrder (marked partsOf wrong? s) faults ∧
    InOrder (marked partsOf tested? s) names ∧ Settled fieldsOf x faults names

def ReadingIn (fieldsOf : α → List String) (ss : List Site) (x : Except Fault α) : Prop :=
  ∃ faults names, InOrder (markedIn partsOf wrong? ss) faults ∧
    InOrder (markedIn partsOf tested? ss) names ∧ Settled fieldsOf x faults names

theorem Reading.eq_error_iff {s : Site} (h : Reading fieldsOf s x) (e : Fault) :
    x = .error e ↔ First (marked partsOf wrong? s) e := by
  obtain ⟨faults, names, hwrong, -, hx⟩ := h
  rw [hwrong.first_iff]
  cases hx with
  | ok a => exact iff_of_false (fun h => nomatch h) (fun h => nomatch h)
  | error e' later => rw [List.head?_cons, Except.error.injEq, Option.some.injEq]

theorem Reading.inOrder {s : Site} {a : α} (h : Reading fieldsOf s (.ok a)) :
    InOrder (marked partsOf tested? s) (fieldsOf a) := by
  obtain ⟨faults, names, -, htested, hx⟩ := h
  cases hx with
  | ok => exact htested

theorem readingIn_nil {a : α} (h : fieldsOf a = []) : ReadingIn fieldsOf [] (.ok a) :=
  ⟨[], [], inOrder_nil, inOrder_nil, h ▸ .ok a⟩

theorem readingIn_cons {s : Site} {ss : List Site} {f : α → β → γ} (hs : Reading fieldsOf s x)
    (hss : ReadingIn fieldsOf' ss y) (hf : ∀ a b, fieldsOf'' (f a b) = fieldsOf a ++ fieldsOf' b) :
    ReadingIn fieldsOf'' (s :: ss) (do let a ← x; let b ← y; return f a b) := by
  obtain ⟨faults, names, hwrong, htested, hx⟩ := hs
  obtain ⟨faults', names', hwrong', htested', hy⟩ := hss
  exact ⟨faults ++ faults', names ++ names', inOrder_cons hwrong hwrong',
    inOrder_cons htested htested', hx.both hy hf⟩

theorem readingIn_single {s : Site} (h : Reading fieldsOf s x) : ReadingIn fieldsOf [s] x := by
  obtain ⟨faults, names, hwrong, htested, hx⟩ := h
  exact ⟨faults, names, inOrder_single hwrong, inOrder_single htested, hx⟩

theorem Reading.map {s : Site} {f : α → β} (h : Reading fieldsOf s x)
    (hf : ∀ a, fieldsOf' (f a) = fieldsOf a) : Reading fieldsOf' s (x.map f) := by
  obtain ⟨faults, names, hwrong, htested, hx⟩ := h
  exact ⟨faults, names, hwrong, htested, hx.map [] hf⟩

/-- A site with which nothing is wrong is read by its parts. -/
theorem reading_of_parts {s : Site} {f : α → β} (hwrong : wrong? s = none)
    (h : ReadingIn fieldsOf (partsOf s) x)
    (hf : ∀ a, fieldsOf' (f a) = (tested? s).toList ++ fieldsOf a) :
    Reading fieldsOf' s (x.map f) := by
  obtain ⟨faults, names, hfaults, hnames, hx⟩ := h
  have hown := inOrder_whole hfaults
  rw [hwrong] at hown
  exact ⟨faults, _, hown, inOrder_whole hnames, hx.map _ hf⟩

theorem reading_of_untested {s : Site} (hwrong : wrong? s = none) (htested : tested? s = none)
    (h : ReadingIn fieldsOf (partsOf s) x) : Reading fieldsOf s x := by
  have hnone (a : α) : fieldsOf a = (tested? s).toList ++ fieldsOf a := by
    rw [htested]
    rfl
  have hmap : Reading fieldsOf s (x.map id) := reading_of_parts hwrong h hnone
  rwa [Except.map_id] at hmap

theorem reading_of_leaf {s : Site} {a : α} (hwrong : wrong? s = none) (h : partsOf s = [])
    (ha : fieldsOf a = (tested? s).toList) : Reading fieldsOf s (.ok a) := by
  have hfaults := @inOrder_leaf _ _ _ wrong? _ h
  rw [hwrong] at hfaults
  exact ⟨[], _, hfaults, inOrder_leaf h, ha ▸ .ok a⟩

theorem reading_of_wrong {s : Site} {e : Fault} (hwrong : wrong? s = some e) (h : partsOf s = []) :
    Reading fieldsOf s (.error e) := by
  have hfaults := @inOrder_leaf _ _ _ wrong? _ h
  rw [hwrong] at hfaults
  exact ⟨[e], _, hfaults, inOrder_leaf h, .error e [] _⟩

end

/-! ## Values -/

theorem readingIn_values {field : String} {items : List Json}
    (each : ∀ item ∈ items, Reading (fun _ => []) (.value field, item) (Value.ofJson field item)) :
    ReadingIn (fun _ => []) (items.map fun item => (.value field, item))
      (Value.ofItems field items) := by
  induction items with
  | nil => exact readingIn_nil rfl
  | cons item items ih =>
    obtain ⟨first, each⟩ := List.forall_mem_cons.mp each
    exact readingIn_cons first (ih each) fun _ _ => rfl

theorem readingIn_fields {members : List (String × Json)}
    (each : ∀ member ∈ members,
      Reading (fun _ => []) (.value member.1, member.2) (Value.ofJson member.1 member.2)) :
    ReadingIn (fun _ => []) (members.map fun member => (.value member.1, member.2))
      (Record.ofMembers members) := by
  induction members with
  | nil => exact readingIn_nil rfl
  | cons member members ih =>
    obtain ⟨first, each⟩ := List.forall_mem_cons.mp each
    exact readingIn_cons first (ih each) fun _ _ => rfl

theorem reading_value (field : String) (j : Json) :
    Reading (fun _ => []) (.value field, j) (Value.ofJson field j) := by
  induction j using Json.induct generalizing field with
  | scalar j plain =>
    cases j with
    | number n =>
      cases n with
      | beyond => exact reading_of_wrong rfl rfl
      | _ => exact reading_of_leaf rfl rfl rfl
    | array => exact plain.elim
    | object => exact plain.elim
    | _ => exact reading_of_leaf rfl rfl rfl
  | array items ih =>
    exact reading_of_parts rfl (readingIn_values fun item mem => ih item mem field) fun _ => rfl
  | object members ih =>
    exact reading_of_parts rfl (readingIn_fields fun member mem => ih member mem member.1)
      fun _ => rfl

/-! ## Filters -/

theorem fields_append (f g : Filter) : fields (f ++ g) = fields f ++ fields g := by
  induction f with
  | nil => rw [fields, List.nil_append, List.nil_append]
  | cons node f ih =>
    cases node with
    | test field t => rw [List.cons_append, fields, fields, ih, List.cons_append]
    | group c children => rw [List.cons_append, fields, fields, ih, List.append_assoc]

def testedBy (field : String) (t : Option Test) : List String :=
  (t.map fun _ => field).toList

theorem reading_operand (field word : String) (operand : Json) :
    Reading (testedBy field) (.operand field word, operand) (testOfJson? field word operand) := by
  rw [testOfJson?_eq]
  cases hword : operator? word with
  | none =>
    have hwrong : wrong? (.operand field word, operand) = none := by simp only [wrong?, hword]
    have hparts : partsOf (.operand field word, operand) = [] := by simp only [partsOf, hword]
    exact reading_of_leaf hwrong hparts (by rw [tested?, hword]; rfl)
  | some operator =>
    have htested : tested? (.operand field word, operand) = some field := by
      rw [tested?, hword]
      rfl
    cases operator with
    | ofValue make =>
      have hwrong : wrong? (.operand field word, operand) = none := by simp only [wrong?, hword]
      have hparts : partsOf (.operand field word, operand) = [(.value field, operand)] := by
        simp only [partsOf, hword]
      exact reading_of_parts hwrong (hparts ▸ readingIn_single (reading_value field operand))
        fun v => by rw [htested]; rfl
    | ofList make =>
      cases operand with
      | array items =>
        have hwrong : wrong? (.operand field word, .array items) = none := by
          simp only [wrong?, hword]
        have hparts : partsOf (.operand field word, .array items) =
            items.map fun item => (.value field, item) := by simp only [partsOf, hword]
        have hvalues := readingIn_values fun item (_ : item ∈ items) => reading_value field item
        exact reading_of_parts hwrong (hparts ▸ hvalues) fun vs => by rw [htested]; rfl
      | _ => refine reading_of_wrong ?_ ?_ <;> simp only [wrong?, partsOf, hword]

theorem readingIn_operands (field : String) (members : List (String × Json)) :
    ReadingIn fields (members.map fun member => (.operand field member.1, member.2))
      (testsOfJson field members) := by
  induction members with
  | nil => exact readingIn_nil (by rw [fields])
  | cons member members ih =>
    refine readingIn_cons (reading_operand field member.1 member.2) ih fun t ts => ?_
    cases t with
    | none => rfl
    | some t => exact fields.eq_2 field t ts

theorem reading_asked (field : String) (j : Json) :
    Reading fields (.asked field, j) (ofField field j) := by
  have htest (t : Test) : fields [.test field t] = [field] := by rw [fields, fields]
  induction j using Json.induct with
  | scalar j plain =>
    have hvalue := readingIn_single (reading_value field j)
    cases j with
    | null =>
      show Reading fields _ ((Value.ofJson field .null).map fun _ => [.test field .isNull])
      exact reading_of_parts rfl hvalue fun _ => htest _
    | array => exact plain.elim
    | object => exact plain.elim
    | _ =>
      rw [ofField_of_scalar field plain Json.noConfusion]
      exact reading_of_parts rfl hvalue fun _ => htest _
  | array items => exact reading_of_wrong rfl rfl
  | object members => exact reading_of_untested rfl rfl (readingIn_operands field members)

theorem reading_member {name : String} {item : Json}
    (h : Reading fieldsOfAll (.group, item) (childrenOfJson item)) :
    Reading fields (roleOf name, item) (ofMember name item) := by
  rw [roleOf, ofMember]
  cases connective? name with
  | none => exact reading_asked name item
  | some c => exact h.map fun children => by rw [fields, fields, List.append_nil]

theorem readingIn_members {members : List (String × Json)}
    (each : ∀ member ∈ members, Reading fieldsOfAll (.group, member.2) (childrenOfJson member.2)) :
    ReadingIn fields (members.map fun member => (roleOf member.1, member.2))
      (ofMembers members) := by
  induction members with
  | nil => exact readingIn_nil (by rw [fields])
  | cons member members ih =>
    obtain ⟨first, each⟩ := List.forall_mem_cons.mp each
    rw [ofMembers_cons]
    exact readingIn_cons (reading_member first) (ih each) fields_append

theorem readingIn_filters {items : List Json}
    (each : ∀ item ∈ items, Reading fields (.filter, item) (ofJson item)) :
    ReadingIn fieldsOfAll (items.map fun item => (.filter, item)) (ofItems items) := by
  induction items with
  | nil => exact readingIn_nil (by rw [fieldsOfAll])
  | cons item items ih =>
    obtain ⟨first, each⟩ := List.forall_mem_cons.mp each
    exact readingIn_cons first (ih each) fun f fs => by rw [fieldsOfAll]

/-- Filters and groups are settled by their places. -/
theorem reading_filter (j : Json) :
    Reading fields (.filter, j) (ofJson j) ∧
      Reading fieldsOfAll (.group, j) (childrenOfJson j) := by
  have group {j : Json} (hj : ∀ items, j ≠ .array items)
      (h : Reading fields (.filter, j) (ofJson j)) :
      Reading fields (.filter, j) (ofJson j) ∧
        Reading fieldsOfAll (.group, j) (childrenOfJson j) := by
    have hparts : partsOf (.group, j) = [(.filter, j)] := by
      cases j with
      | array items => exact (hj items rfl).elim
      | _ => rfl
    rw [childrenOfJson_of_filter hj]
    exact ⟨h, reading_of_parts rfl (hparts ▸ readingIn_single h) fun f => by
      rw [fieldsOfAll, fieldsOfAll, List.append_nil]; rfl⟩
  induction j using Json.induct with
  | scalar j plain =>
    refine group (by rintro items rfl; exact plain) ?_
    cases j with
    | null => exact reading_of_leaf rfl rfl (by rw [fields]; rfl)
    | array => exact plain.elim
    | object => exact plain.elim
    | _ => exact reading_of_wrong rfl rfl
  | array items ih =>
    exact ⟨reading_of_wrong rfl rfl,
      reading_of_untested rfl rfl (readingIn_filters fun item mem => (ih item mem).1)⟩
  | object members ih =>
    exact group (fun _ => Json.noConfusion)
      (reading_of_untested rfl rfl (readingIn_members fun member mem => (ih member mem).2))

/-- A filter is read of the data that are written as one, and is what they say: its nodes and its
fields come in the order in which they are written. Other data have the fault that is written
first. -/
theorem read_as_written (j : Json) :
    ((∃ f, ofJson j = .ok f) ↔ IsFilter j) ∧ (∀ f, ofJson j = .ok f ↔ Reads j f) ∧
      (∀ f, ofJson j = .ok f → InOrder (marked partsOf tested? (.filter, j)) (fields f)) ∧
      ∀ e, ofJson j = .error e ↔ First (marked partsOf wrong? (.filter, j)) e := by
  have hreading := (reading_filter j).1
  refine ⟨(ofJson_isOk_iff j).1, (ofJson_eq_ok_iff j).1, fun f hf => ?_, hreading.eq_error_iff⟩
  rw [hf] at hreading
  exact hreading.inOrder

def titleOrDone : Json :=
  .object [("title", .object [("contains", .string "plan"),
      ("near", .number (.beyond 9223372036854775808)), ("not", .null)]),
    ("OR", .array [.object [("done", .bool true)], .null])]

def plannedOrDone : Filter :=
  [.test "title" (.like .anywhere (.text "plan")), .test "title" (.compare .different .null),
    .group .or [[.test "done" (.compare .equal (.bool true))], []]]

theorem read_as_written_titleOrDone :
    ofJson titleOrDone = .ok plannedOrDone ∧ Reads titleOrDone plannedOrDone ∧
      InOrder (marked partsOf tested? (.filter, titleOrDone)) (fields plannedOrDone) := by
  obtain ⟨-, hreads, horder, -⟩ := read_as_written titleOrDone
  have hread : ofJson titleOrDone = .ok plannedOrDone := rfl
  exact ⟨hread, (hreads _).mp hread, horder _ hread⟩

end Relata.Filter
