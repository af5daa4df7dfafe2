import Relata.Proofs.Json.Texts
import Relata.Proofs.Query.Structural

/-! # Values in texts

A value that structural data has a form for is read back from its text. Structural data of other
origin are refused only for whole numbers that are too large for 64 bits with sign, and the field
that they are refused for is the nearest one that such a number stands under.
-/

namespace Relata

/-! ## Texts of values -/

mutual

theorem Value.plain_toJson (v : Value) (h : v.Representable) : v.toJson.Plain := by
  cases v with
  | null | bool | text =>
    intro n hn
    cases hn
  | integer n => exact Json.plain_number_iff.mpr trivial
  | real x => exact Json.plain_number_iff.mpr h
  | blob | timestamp | date => exact h.elim
  | array items => exact Json.plain_array_iff.mpr (Value.plain_toItems items h)
  | object fields => exact Json.plain_object_iff.mpr (Record.plain_toMembers fields h.2)

theorem Value.plain_toItems (vs : List Value) (h : Value.AllRepresentable vs) :
    ∀ item ∈ Value.toItems vs, item.Plain := by
  cases vs with
  | nil => nofun
  | cons v vs =>
    exact List.forall_mem_cons.mpr ⟨Value.plain_toJson v h.1, Value.plain_toItems vs h.2⟩

theorem Record.plain_toMembers (fields : List (String × Value)) (h : Record.Representable fields) :
    ∀ member ∈ Record.toMembers fields, member.2.Plain := by
  cases fields with
  | nil => nofun
  | cons e fields =>
    obtain ⟨name, v⟩ := e
    exact List.forall_mem_cons.mpr ⟨Value.plain_toJson v h.1, Record.plain_toMembers fields h.2⟩

end

/-! ## Refusals -/

namespace Json

/-- The first number that is too large stands under this field: the nearest member that it is
written in, or the field that the datum is for. -/
inductive Exceeds : String → Json → String → Prop
  | here {field : String} {n : UInt64} : Exceeds field (.number (.beyond n)) field
  | item {field name : String} {front back : List Json} {item : Json}
      (front_bounded : ∀ other ∈ front, other.Bounded) (deeper : Exceeds field item name) :
      Exceeds field (.array (front ++ item :: back)) name
  | member {field key name : String} {front back : List (String × Json)} {item : Json}
      (front_bounded : ∀ other ∈ front, other.2.Bounded) (deeper : Exceeds key item name) :
      Exceeds field (.object (front ++ (key, item) :: back)) name

end Json

theorem both_eq_error_iff {ε α β γ : Type} {x : Except ε α} {y : Except ε β} {f : α → β → γ}
    {e : ε} : (do let a ← x; let b ← y; return f a b) = .error e ↔
      x = .error e ∨ (∃ a, x = .ok a) ∧ y = .error e := by
  cases x <;> cases y <;> simp [bind, Except.bind, pure, Except.pure]

theorem map_eq_error_iff {ε α β : Type} {x : Except ε α} {f : α → β} {e : ε} :
    x.map f = .error e ↔ x = .error e := by
  cases x <;> simp [Except.map]

theorem exists_first_cons {α : Type} {good bad : α → Prop} {a : α} {as : List α} :
    (∃ front b back, a :: as = front ++ b :: back ∧ (∀ c ∈ front, good c) ∧ bad b) ↔
      bad a ∨ good a ∧ ∃ front b back, as = front ++ b :: back ∧ (∀ c ∈ front, good c) ∧ bad b := by
  constructor
  · rintro ⟨front, b, back, heq, hfront, hb⟩
    cases front with
    | nil =>
      cases heq
      exact .inl hb
    | cons c front =>
      cases heq
      obtain ⟨hc, hfront⟩ := List.forall_mem_cons.mp hfront
      exact .inr ⟨hc, front, b, back, rfl, hfront, hb⟩
  · rintro (ha | ⟨ha, front, b, back, rfl, hfront, hb⟩)
    · exact ⟨[], a, as, rfl, nofun, ha⟩
    · exact ⟨a :: front, b, back, rfl, List.forall_mem_cons.mpr ⟨ha, hfront⟩, hb⟩

namespace Value

variable {field : String} {e : Fault}

theorem ofItems_eq_error_iff {items : List Json} :
    ofItems field items = .error e ↔ ∃ front item back, items = front ++ item :: back ∧
      (∀ other ∈ front, other.Bounded) ∧ ofJson field item = .error e := by
  induction items with
  | nil => simp [ofItems]
  | cons item items ih =>
    rw [ofItems, both_eq_error_iff, exists_first_cons, ofJson_isOk_iff, ih]

theorem ofMembers_eq_error_iff {members : List (String × Json)} :
    Record.ofMembers members = .error e ↔ ∃ front member back,
      members = front ++ member :: back ∧ (∀ other ∈ front, other.2.Bounded) ∧
        ofJson member.1 member.2 = .error e := by
  induction members with
  | nil => simp [Record.ofMembers]
  | cons member members ih =>
    rw [Record.ofMembers, both_eq_error_iff, exists_first_cons, ofJson_isOk_iff, ih]

/-- What is refused is refused for the first number in it that is too large. -/
theorem ofJson_eq_error_iff (j : Json) (field : String) :
    ofJson field j = .error e ↔
      ∃ name, j.Exceeds field name ∧ e = .unbindable name .beyond := by
  induction j using Json.induct generalizing field with
  | scalar j scalar =>
    constructor
    · intro h
      cases j with
      | number n =>
        cases n with
        | beyond n =>
          cases h
          exact ⟨field, .here, rfl⟩
        | _ => cases h
      | array => exact scalar.elim
      | object => exact scalar.elim
      | _ => cases h
    · rintro ⟨name, h, rfl⟩
      cases h with
      | here => rfl
      | item => exact scalar.elim
      | member => exact scalar.elim
  | array items ih =>
    rw [ofJson, map_eq_error_iff, ofItems_eq_error_iff]
    constructor
    · rintro ⟨front, item, back, rfl, hfront, h⟩
      obtain ⟨name, deeper, he⟩ := (ih item (by simp) field).mp h
      exact ⟨name, .item hfront deeper, he⟩
    · rintro ⟨name, h, he⟩
      generalize hj : Json.array items = j at h
      cases h with
      | here => cases hj
      | item hfront deeper =>
        cases hj
        exact ⟨_, _, _, rfl, hfront, (ih _ (by simp) field).mpr ⟨name, deeper, he⟩⟩
      | member => cases hj
  | object members ih =>
    rw [ofJson, map_eq_error_iff, ofMembers_eq_error_iff]
    constructor
    · rintro ⟨front, member, back, rfl, hfront, h⟩
      obtain ⟨name, deeper, he⟩ := (ih member (by simp) member.1).mp h
      exact ⟨name, .member hfront deeper, he⟩
    · rintro ⟨name, h, he⟩
      generalize hj : Json.object members = j at h
      cases h with
      | here => cases hj
      | item => cases hj
      | @member _ key _ front back item hfront deeper =>
        cases hj
        exact ⟨_, (key, item), _, rfl, hfront, (ih (key, item) (by simp) key).mpr ⟨name, deeper, he⟩⟩

theorem ofJson_isError_iff (j : Json) (field : String) :
    (∃ e, ofJson field j = .error e) ↔ ∃ n, Json.Within (.number (.beyond n)) j := by
  have hnot : (∃ e, ofJson field j = .error e) ↔ ¬ ∃ v, ofJson field j = .ok v := by
    cases ofJson field j <;> simp
  rw [hnot, ofJson_isOk_iff]
  unfold Json.Bounded
  simp

/-! ## Both ways -/

theorem read_again {v : Value} (h : v.Representable) (field : String) :
    ∃ j, Json.read? v.toJson.print = some j ∧ ofJson field j = .ok v :=
  ⟨v.toJson, Json.read?_print (plain_toJson v h), ofJson_toJson field v h⟩

theorem read_again_record {r : Record} (distinct : r.Distinct) (h : Record.Representable r) :
    ∃ j, Json.read? r.toJson.print = some j ∧ Record.ofJson j = .ok r := by
  have hplain : r.toJson.Plain := Json.plain_object_iff.mpr (Record.plain_toMembers r h)
  refine ⟨r.toJson, Json.read?_print hplain, ?_⟩
  rw [Record.toJson, Record.ofJson, Record.ofMembers_toMembers r h]
  exact congrArg Except.ok (Entries.ofList_of_distinct distinct)

/-- A value that structural data has a form for is what its text is read as, with its fields in
their order. Data are refused exactly if a whole number is written in them, at some depth, that is
too large for 64 bits with sign and not for 64 bits without, and the field that they are refused
for is the nearest one that the first such number stands under. -/
theorem survives_text :
    (∀ (v : Value) (field : String), v.Representable →
      ∃ j, Json.read? v.toJson.print = some j ∧ ofJson field j = .ok v) ∧
    (∀ r : Record, r.Distinct → Record.Representable r →
      ∃ j, Json.read? r.toJson.print = some j ∧ Record.ofJson j = .ok r) ∧
    (∀ (j : Json) (field : String),
      (∃ e, ofJson field j = .error e) ↔ ∃ n, Json.Within (.number (.beyond n)) j) ∧
    (∀ (j : Json) (field : String) (e : Fault), ofJson field j = .error e ↔
      ∃ name, j.Exceeds field name ∧ e = .unbindable name .beyond) ∧
    ∀ (cs rest : List Char) (n : UInt64), Json.number? cs = some (.beyond n, rest) ↔
      ∃ digits, cs = digits ++ rest ∧ Json.Whole digits ∧ Json.Ends rest ∧
        Text.valueOfDigits digits = n.toNat ∧ 2 ^ 63 ≤ n.toNat := by
  refine ⟨?_, ?_, ofJson_isError_iff, ?_, ?_⟩
  · intro v field h
    exact read_again h field
  · intro r distinct h
    exact read_again_record distinct h
  · intro j field e
    exact ofJson_eq_error_iff j field
  · intro cs rest n
    exact Json.number?_eq_beyond_iff

/-- An order with its lines and its customer: the least of the whole numbers, a negative zero, a
number that takes an exponent, and texts that have to be escaped. -/
def order : Record :=
  [("total", .real ⟨0x7fefffffffffffff⟩),
    ("note", .text "two \"tall\" oaks\n\\ é"),
    ("lines", .array [.integer (-9223372036854775808), .real ⟨0x8000000000000000⟩, .null,
      .array []]),
    ("customer", .object [("name", .text ""), ("id", .integer 7), ("held", .bool false)])]

theorem survives_text_order :
    order.Distinct ∧ Record.Representable order ∧
      (∃ j, Json.read? (toJson (.object order)).print = some j ∧
        ofJson "order" j = .ok (.object order)) ∧
      ∃ j, Json.read? (Record.toJson order).print = some j ∧ Record.ofJson j = .ok order := by
  have distinct : order.Distinct := by simp [order, Entries.Distinct, Entries.names]
  have representable : Record.Representable order := by
    simp [order, Record.Representable, Representable, AllRepresentable, Entries.Distinct,
      Entries.names]
    decide
  exact ⟨distinct, representable,
    survives_text.1 (.object order) "order" ⟨distinct, representable⟩,
    survives_text.2.1 order distinct representable⟩

end Value

end Relata
