import Relata.Proofs.Query.Meaning

/-! # What can be wrong with a filter

A filter is refused for an operand that cannot be bound, or for a name of a field that is not
plain, and for nothing else.
-/

namespace Relata

def Fault.IsUnbindable (e : Fault) : Prop :=
  ∃ field why, e = .unbindable field why

/-- A check that finds no other faults than those of a kind. -/
def Fault.Only {α : Type} (kind : Fault → Prop) (x : Except Fault α) : Prop :=
  ∀ e, x = .error e → kind e

namespace Fault.Only

variable {α β : Type} {kind kind' : Fault → Prop} {x : Except Fault α}

theorem ok (a : α) : Only kind (.ok a) := by
  intro e he
  cases he

theorem error {e : Fault} (he : kind e) : Only kind (.error e : Except Fault α) := by
  rintro _ ⟨⟩
  exact he

theorem mono (h : Only kind x) (weaker : ∀ e, kind e → kind' e) : Only kind' x :=
  fun e he => weaker e (h e he)

theorem check {f : α → Except Fault β} (first : Only kind x)
    (rest : ∀ a, x = .ok a → Only kind (f a)) : Only kind (x >>= f) := by
  cases x with
  | error e =>
    rintro _ ⟨⟩
    exact first e rfl
  | ok a => exact rest a rfl

theorem bind {f : α → Except Fault β} (first : Only kind x) (rest : ∀ a, Only kind (f a)) :
    Only kind (x >>= f) :=
  first.check fun a _ => rest a

theorem map (first : Only kind x) (f : α → β) : Only kind (x.map f) := by
  cases x with
  | error e =>
    rintro _ ⟨⟩
    exact first e rfl
  | ok a => exact ok (f a)

/-! ## Operands -/

theorem toScalar (field : String) (v : Value) : Only IsUnbindable (v.toScalar field) := by
  cases v with
  | real x =>
    rw [Value.toScalar]
    split
    · exact ok _
    · exact error ⟨field, _, rfl⟩
  | array | object => exact error ⟨field, _, rfl⟩
  | _ => exact ok _

theorem scalars (field : String) (vs : List Value) : Only IsUnbindable (Test.scalars field vs) := by
  induction vs with
  | nil => exact ok []
  | cons v vs ih => exact bind (toScalar field v) fun s => bind ih fun ss => ok _

theorem needle (field : String) (v : Value) : Only IsUnbindable (Test.needle field v) := by
  cases v with
  | real x =>
    rw [Test.needle]
    split
    · exact ok _
    · exact error ⟨field, _, rfl⟩
  | text | integer => exact ok _
  | _ => exact error ⟨field, _, rfl⟩

theorem condition (field : String) (t : Test) : Only IsUnbindable (t.condition field) := by
  fun_cases Test.condition field t with
  | case1 | case2 | case3 | case5 | case6 => exact ok _
  | case4 how v => exact map (toScalar field v) _
  | case7 vs | case8 vs => exact map (scalars field vs) _
  | case9 place v => exact map (needle field v) _

/-! ## Filters -/

theorem conditions {filter : Filter} (operands : ∀ e, IsUnbindable e → kind e)
    (names : ∀ name ∈ Filter.fields filter, Only kind (checkedName name)) :
    Only kind (Filter.conditions filter) := by
  induction filter using Filter.induction with
  | nil => exact ok []
  | test field t nodes hnodes =>
    obtain ⟨hfield, hrest⟩ := List.forall_mem_cons.mp (by rwa [Filter.fields] at names)
    rw [Filter.conditions, Filter.nodeCondition?]
    have htest (name : String) : Only kind (t.condition name) := (condition name t).mono operands
    exact bind (bind hfield fun name => bind (htest name) fun c => ok _)
      fun c => bind (hnodes hrest) fun cs => ok _
  | group c children nodes hchildren hnodes =>
    rw [Filter.fields, List.forall_mem_append] at names
    obtain ⟨hfields, hrest⟩ := names
    have hparts : Only kind (Filter.parts children) := by
      clear hnodes
      induction children with
      | nil => exact ok []
      | cons child children ih =>
        obtain ⟨hc, hcs⟩ := List.forall_mem_cons.mp hchildren
        rw [Filter.fieldsOfAll, List.forall_mem_append] at hfields
        rw [Filter.parts]
        exact bind (hc hfields.1) fun part => bind (ih hcs hfields.2) fun rest => ok _
    rw [Filter.conditions, Filter.nodeCondition?]
    exact bind (bind hparts fun ps => ok _) fun c => bind (hnodes hrest) fun cs => ok _

theorem of_plain {filter : Filter}
    (plain : ∀ n ∈ Filter.fields filter, Text.PlainName n.toList) :
    Only IsUnbindable (Filter.conditions filter) := by
  refine conditions (fun _ he => he) fun name hname => ?_
  rw [Filter.checkedName_of_plain (plain name hname)]
  exact ok name

end Fault.Only

end Relata
