import Mathlib.Data.List.Forall2
import Relata.Proofs.Model.Siblings

/-! # The order of fields

Records that have the same values under the same names, though in another order. A reader that
asks for fields by their names cannot tell them apart, and neither can a selection of fields,
nor the grouping of rows by their keys.
-/

namespace Relata

/-- The same value, up to the order of the fields of the records in it. -/
inductive Value.Same : Value → Value → Prop
  | refl (v : Value) : Same v v
  | array {vs ws : List Value} (items : List.Forall₂ Same vs ws) : Same (.array vs) (.array ws)
  | object {p q : Record}
      (fields : ∀ name, Option.Rel Same (Entries.get? p name) (Entries.get? q name)) :
      Same (.object p) (.object q)

def Record.Same (p q : Record) : Prop :=
  ∀ name, Option.Rel Value.Same (Entries.get? p name) (Entries.get? q name)

namespace Value.Same

variable {v w : Value}

theorem option_refl : ∀ v? : Option Value, Option.Rel Same v? v?
  | none => .none
  | some v => .some (.refl v)

theorem eq_of_key? (same : Same v w) {k : Key} (hk : v.key? = some k) : w = v := by
  cases same with
  | refl => rfl
  | array | object => cases hk

theorem key?_eq (same : Same v w) : v.key? = w.key? := by
  cases same <;> rfl

end Value.Same

namespace Record.Same

variable {p q q' : Record}

theorem refl (p : Record) : Same p p :=
  fun _ => Value.Same.option_refl _

theorem trans_get? (same : Same p q) (h : ∀ name, Entries.get? q name = Entries.get? q' name) :
    Same p q' := by
  intro name
  rw [← h name]
  exact same name

theorem all_trans_get? {ps qs qs' : List Record} (same : List.Forall₂ Same ps qs)
    (h : List.Forall₂ (fun q q' : Record => ∀ name, Entries.get? q name = Entries.get? q' name)
      qs qs') : List.Forall₂ Same ps qs' := by
  induction same generalizing qs' with
  | nil =>
    cases h
    exact .nil
  | cons hpq _ ih => cases h with | cons hq hqs => exact .cons (hpq.trans_get? hq) (ih hqs)

theorem keyOf?_eq (same : Same p q) (field : String) : p.keyOf? field = q.keyOf? field := by
  have hfield := same field
  rw [keyOf?, keyOf?]
  generalize Entries.get? p field = v? at hfield ⊢
  generalize Entries.get? q field = w? at hfield ⊢
  cases hfield with
  | none => rfl
  | some hvw => exact hvw.key?_eq

theorem get?_of_keyOf? (same : Same p q) {field : String} {k : Key}
    (hk : p.keyOf? field = some k) : Entries.get? q field = Entries.get? p field := by
  have hfield := same field
  rw [keyOf?] at hk
  generalize Entries.get? p field = v? at hfield hk ⊢
  generalize Entries.get? q field = w? at hfield ⊢
  cases hfield with
  | none => rfl
  | some hvw => rw [hvw.eq_of_key? hk]

theorem set (same : Same p q) (field : String) {v w : Value} (hvw : Value.Same v w) :
    Same (Entries.set p field v) (Entries.set q field w) := by
  intro name
  by_cases hn : name = field
  · subst hn
    rw [Entries.get?_set_self, Entries.get?_set_self]
    exact .some hvw
  · rw [Entries.get?_set_of_ne _ _ hn, Entries.get?_set_of_ne _ _ hn]
    exact same name

theorem distinctValues_eq {ps qs : List Record} (same : List.Forall₂ Same ps qs) (field : String)
    (seen : List Key) : distinctValues field seen ps = distinctValues field seen qs := by
  induction same generalizing seen with
  | nil => rfl
  | @cons p q ps qs hpq _ ih =>
    have hkey := hpq.keyOf?_eq field
    cases hk : p.keyOf? field with
    | none =>
      rw [distinctValues, distinctValues, ← hkey, hk]
      cases Entries.get? p field <;> cases Entries.get? q field <;> exact ih seen
    | some k =>
      rw [distinctValues, distinctValues, ← hkey, hk, hpq.get?_of_keyOf? hk]
      cases Entries.get? p field with
      | none => exact ih seen
      | some v => simp only [ih]

end Record.Same

namespace Relation

variable {rows others : List Record} {p q : Record}

theorem group_same (r : Relation) (hrows : List.Forall₂ Record.Same rows others)
    (hpq : Record.Same p q) : List.Forall₂ Record.Same (r.group rows p) (r.group others q) := by
  rw [group, group, ← hpq.keyOf?_eq]
  cases p.keyOf? r.parentKey with
  | none => exact .nil
  | some k =>
    refine List.rel_filter (fun row other hrow => ?_) hrows
    simp only [hrow.keyOf?_eq]

end Relation

theorem Page.slice_same {α β : Type} {R : α → β → Prop} (page : Page) {as : List α} {bs : List β}
    (h : List.Forall₂ R as bs) : List.Forall₂ R (page.slice as) (page.slice bs) := by
  obtain ⟨take, skip⟩ := page
  cases take <;> cases skip
  · exact h
  · exact List.forall₂_drop _ h
  · exact List.forall₂_take _ h
  · exact List.forall₂_take _ (List.forall₂_drop _ h)

namespace Select

theorem get?_apply (s : Select) (p : Record) (name : String) :
    Entries.get? (s.apply p) name =
      (s.get? name).bind fun inner => (Entries.get? p name).map fun v =>
        match inner with
        | none => v
        | some inner => inner.narrow v := by
  induction p with
  | nil => cases s.get? name <;> rfl
  | cons e p ih =>
    obtain ⟨n, v⟩ := e
    rw [apply, Entries.get?_cons]
    by_cases hn : name = n
    · subst hn
      rw [if_pos rfl]
      cases hs : s.get? name with
      | none => simp only [ih, hs, Option.bind_none]
      | some inner => cases inner <;> simp only [Entries.get?_cons, if_pos] <;> rfl
    · rw [if_neg hn]
      cases hs : s.get? n with
      | none => exact ih
      | some inner => cases inner <;> simpa only [Entries.get?_cons, if_neg hn] using ih

theorem narrowItems_eq (s : Select) (vs : List Value) :
    s.narrowItems vs = vs.map fun v =>
      match v with
      | .object fields => .object (s.apply fields)
      | v => v := by
  induction vs with
  | nil => rfl
  | cons v vs ih => cases v <;> simp only [narrowItems, ih, List.map_cons]

theorem sizeOf_lt_of_get? {s inner : Select} {name : String}
    (h : s.get? name = some (some inner)) : sizeOf inner < sizeOf s := by
  have hmem := List.sizeOf_lt_of_mem (Entries.mem_of_get? h)
  obtain ⟨fields⟩ := s
  simp only [Prod.mk.sizeOf_spec, Option.some.sizeOf_spec, mk.sizeOf_spec] at hmem ⊢
  omega

theorem apply_same_of {s : Select} {p q : Record} (same : Record.Same p q)
    (below : ∀ name inner, s.get? name = some (some inner) →
      ∀ v w, Value.Same v w → Value.Same (inner.narrow v) (inner.narrow w)) :
    Record.Same (s.apply p) (s.apply q) := by
  intro name
  rw [get?_apply, get?_apply]
  cases hs : s.get? name with
  | none => exact .none
  | some inner =>
    have hname := same name
    generalize Entries.get? p name = v? at hname ⊢
    generalize Entries.get? q name = w? at hname ⊢
    cases hname with
    | none => exact .none
    | some hvw =>
      cases inner with
      | none => exact .some hvw
      | some inner => exact .some (below name inner hs _ _ hvw)

theorem narrow_same (s : Select) {v w : Value} (same : Value.Same v w) :
    Value.Same (s.narrow v) (s.narrow w) := by
  have applied {p q : Record} (same : Record.Same p q) : Record.Same (s.apply p) (s.apply q) :=
    apply_same_of same fun name inner hs v w hvw => narrow_same inner hvw
  cases same with
  | refl => exact .refl _
  | object fields => exact .object (applied fields)
  | array items =>
    rw [narrow, narrow, narrowItems_eq, narrowItems_eq]
    refine .array (List.forall₂_map_left_iff.mpr (List.forall₂_map_right_iff.mpr ?_))
    refine items.imp fun v w hvw => ?_
    cases hvw with
    | refl => exact .refl _
    | array items => exact .array items
    | object fields => exact .object (applied fields)
termination_by sizeOf s
decreasing_by exact sizeOf_lt_of_get? hs

theorem narrowAll_same (s : Option Select) {ps qs : List Record}
    (same : List.Forall₂ Record.Same ps qs) :
    List.Forall₂ Record.Same (narrowAll s ps) (narrowAll s qs) := by
  cases s with
  | none => exact same
  | some s =>
    refine List.forall₂_map_left_iff.mpr (List.forall₂_map_right_iff.mpr ?_)
    exact same.imp fun p q hpq => apply_same_of hpq fun _ inner _ _ _ => inner.narrow_same

end Select

/-- What is attached does not depend on the order of fields. -/
theorem Relation.attached_same (r : Relation) (page : Page) (select : Option Select)
    {ps qs : List Record} (same : List.Forall₂ Record.Same ps qs) :
    Value.Same (r.attached page select ps) (r.attached page select qs) := by
  rw [attached, attached]
  cases r.cardinality with
  | oneToMany =>
    refine .array (List.forall₂_map_left_iff.mpr (List.forall₂_map_right_iff.mpr ?_))
    exact (Select.narrowAll_same select (page.slice_same same)).imp fun _ _ hpq => .object hpq
  | manyToOne =>
    have first := Select.narrowAll_same select (List.forall₂_take 1 same)
    generalize Select.narrowAll select (ps.take 1) = ps' at first ⊢
    generalize Select.narrowAll select (qs.take 1) = qs' at first ⊢
    cases first with
    | nil => exact .refl _
    | cons hpq _ => exact .object hpq

end Relata
