import Relata.Proofs.Result
import Relata.Value.Structural

/-! # Numbers that no value has

Every datum is read as a value, but for one in which a whole number is written that is too large
for 64 bits with sign, at any depth.
-/

namespace Relata

namespace Json

def IsScalar : Json → Prop
  | .array _ => False
  | .object _ => False
  | _ => True

theorem induct {motive : Json → Prop} (scalar : ∀ j, j.IsScalar → motive j)
    (array : ∀ items, (∀ item ∈ items, motive item) → motive (.array items))
    (object : ∀ members : List (String × Json), (∀ member ∈ members, motive member.2) →
      motive (.object members)) : ∀ j, motive j
  | .null => scalar _ trivial
  | .bool _ => scalar _ trivial
  | .number _ => scalar _ trivial
  | .string _ => scalar _ trivial
  | .array items => array items fun item _ => induct scalar array object item
  | .object members => object members fun (name, item) mem =>
    have : sizeOf item < sizeOf members := by
      have := List.sizeOf_lt_of_mem mem
      rw [Prod.mk.sizeOf_spec] at this
      omega
    induct scalar array object item

inductive Within (d : Json) : Json → Prop
  | here : Within d d
  | item {items : List Json} {item : Json} (mem : item ∈ items) (deeper : Within d item) :
      Within d (.array items)
  | member {members : List (String × Json)} {name : String} {item : Json}
      (mem : (name, item) ∈ members) (deeper : Within d item) : Within d (.object members)

/-- No whole number beyond those of 64 bits with sign is written in a datum. -/
def Bounded (j : Json) : Prop :=
  ∀ n, ¬ Within (.number (.beyond n)) j

theorem bounded_array_iff {items : List Json} :
    (array items).Bounded ↔ ∀ item ∈ items, item.Bounded := by
  constructor
  · exact fun h item mem n deeper => h n (.item mem deeper)
  · intro h n hn
    cases hn with
    | item mem deeper => exact h _ mem n deeper

theorem bounded_object_iff {members : List (String × Json)} :
    (object members).Bounded ↔ ∀ member ∈ members, member.2.Bounded := by
  constructor
  · exact fun h member mem n deeper => h n (.member mem deeper)
  · intro h n hn
    cases hn with
    | member mem deeper => exact h _ mem n deeper

theorem IsScalar.bounded_iff {j : Json} (h : j.IsScalar) :
    j.Bounded ↔ ∀ n, j ≠ .number (.beyond n) := by
  constructor
  · rintro hj n rfl
    exact hj n .here
  · intro hj n hn
    cases hn with
    | here => exact hj n rfl
    | item => exact h
    | member => exact h

end Json

namespace Value

theorem ofItems_isOk_iff {field : String} {items : List Json} :
    (∃ vs, ofItems field items = .ok vs) ↔ ∀ item ∈ items, ∃ v, ofJson field item = .ok v := by
  induction items with
  | nil => simp [ofItems]
  | cons item items ih => rw [ofItems, both_isOk_iff, ih, List.forall_mem_cons]

theorem ofMembers_isOk_iff {members : List (String × Json)} :
    (∃ fields, Record.ofMembers members = .ok fields) ↔
      ∀ member ∈ members, ∃ v, ofJson member.1 member.2 = .ok v := by
  induction members with
  | nil => simp [Record.ofMembers]
  | cons member members ih => rw [Record.ofMembers, both_isOk_iff, ih, List.forall_mem_cons]

/-- Values are read of the data without a number that is too large, whatever field it is for. -/
theorem ofJson_isOk_iff (j : Json) (field : String) :
    (∃ v, ofJson field j = .ok v) ↔ j.Bounded := by
  induction j using Json.induct generalizing field with
  | scalar j h =>
    rw [h.bounded_iff]
    cases j with
    | number n => cases n <;> simp [ofJson]
    | array => exact h.elim
    | object => exact h.elim
    | _ => simp [ofJson]
  | array items ih =>
    rw [ofJson, map_isOk_iff, ofItems_isOk_iff, Json.bounded_array_iff]
    exact forall₂_congr fun item mem => ih item mem field
  | object members ih =>
    rw [ofJson, map_isOk_iff, ofMembers_isOk_iff, Json.bounded_object_iff]
    exact forall₂_congr fun member mem => ih member mem member.1

end Value

end Relata
