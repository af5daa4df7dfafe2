import Relata.Proofs.Value.Same

/-! # Narrowing

A selection is followed into a record along paths. At each place that it reaches it keeps what it
lists there, and what is left of the selection narrows what comes below; once a field is listed
plainly, all that is below stays as it is. Narrowing again, or by two selections in either order,
makes no difference.
-/

namespace Relata

/-- A step into a value: to a field of a record, or to an item of a list. -/
inductive Step
  | field (name : String)
  | item (index : Nat)

namespace Value

def child? : Step → Value → Option Value
  | .field name, object fields => Entries.get? fields name
  | .item i, array items => items[i]?
  | _, _ => none

def at? : List Step → Value → Option Value
  | [], v => some v
  | step :: path, v => (v.child? step).bind (at? path)

def mapRecord (f : Record → Record) : Value → Value
  | object fields => object (f fields)
  | v => v

def mapRecords (f : Record → Record) : Value → Value
  | array items => array (items.map (mapRecord f))
  | v => v.mapRecord f

theorem mapRecord_mapRecord (f g : Record → Record) (v : Value) :
    (v.mapRecord g).mapRecord f = v.mapRecord fun r => f (g r) := by
  cases v <;> rfl

theorem mapRecords_mapRecords (f g : Record → Record) (v : Value) :
    (v.mapRecords g).mapRecords f = v.mapRecords fun r => f (g r) := by
  cases v with
  | array items => simp [mapRecords, mapRecord_mapRecord]
  | _ => rfl

end Value

namespace Select

theorem narrow_eq (s : Select) (v : Value) : s.narrow v = v.mapRecords s.apply := by
  cases v with
  | array items =>
    rw [narrow, narrowItems_eq, Value.mapRecords]
    congr 2
  | _ => rfl

/-- What is left of a selection at a place in a record: all of the value, what is listed of a
record, or what is listed of a record and of each record directly in a list. -/
inductive View
  | whole
  | record (s : Select)
  | attached (s : Select)

def view? (s : Select) (name : String) : Option View :=
  (s.get? name).map fun
    | none => .whole
    | some inner => .attached inner

namespace View

/-- What is left of a selection after a step; nothing if the field is not listed. Only what is
directly in an attached list is narrowed, so a list in a list stays as it is. -/
def step : View → Step → Option View
  | whole, _ => some whole
  | record s, .field name => s.view? name
  | record _, .item _ => some whole
  | attached s, .field name => s.view? name
  | attached s, .item _ => some (record s)

def follow : View → List Step → Option View
  | view, [] => some view
  | view, step :: path => (view.step step).bind fun next => next.follow path

def lists : View → String → Bool
  | whole, _ => true
  | record s, name => (s.get? name).isSome
  | attached s, name => (s.get? name).isSome

/-- A value, and what is kept of it: of a record the listed fields in their order, of a list all
items in their order, and anything else as it is. -/
structure Keeps (view : View) (v w : Value) : Prop where
  object : ∀ fields, v = .object fields → ∃ kept, w = .object kept ∧
    Entries.names kept = (Entries.names fields).filter view.lists
  array : ∀ items, v = .array items → ∃ kept, w = .array kept ∧ kept.length = items.length
  scalar : (∀ fields, v ≠ .object fields) → (∀ items, v ≠ .array items) → w = v
  whole : view = .whole → w = v

def apply : View → Value → Value
  | whole, v => v
  | record s, v => v.mapRecord s.apply
  | attached s, v => v.mapRecords s.apply

end View

theorem view?_eq_some {s : Select} {name : String} {view : View} (h : s.view? name = some view) :
    view = .whole ∨ ∃ inner, view = .attached inner ∧ s.get? name = some (some inner) := by
  obtain ⟨listed, hs, rfl⟩ := Option.map_eq_some_iff.mp h
  cases listed with
  | none => exact .inl rfl
  | some inner => exact .inr ⟨inner, rfl, hs⟩

theorem apply_eq_filterMap (s : Select) (r : Record) :
    s.apply r = r.filterMap fun e => (s.view? e.1).map fun view => (e.1, view.apply e.2) := by
  induction r with
  | nil => rfl
  | cons e r ih =>
    obtain ⟨name, v⟩ := e
    rw [apply, List.filterMap_cons, ← ih, view?]
    cases s.get? name with
    | none => rfl
    | some listed =>
      cases listed with
      | none => rfl
      | some inner => simp [View.apply, narrow_eq]

theorem names_apply (s : Select) (r : Record) :
    Entries.names (s.apply r) = (Entries.names r).filter fun name => (s.get? name).isSome := by
  induction r with
  | nil => rfl
  | cons e r ih =>
    obtain ⟨name, v⟩ := e
    unfold Entries.names at ih ⊢
    rw [apply]
    cases hs : s.get? name with
    | none => simp [hs, ih]
    | some listed => cases listed <;> simp [hs, ih]

theorem get?_apply_view (s : Select) (r : Record) (name : String) :
    Entries.get? (s.apply r) name =
      (s.view? name).bind fun view => (Entries.get? r name).map view.apply := by
  rw [get?_apply, view?]
  cases s.get? name with
  | none => rfl
  | some listed =>
    cases listed with
    | none => rfl
    | some inner =>
      simp only [narrow_eq]
      rfl

namespace View

/-! ## Paths -/

theorem child?_mapRecords (f : Record → Record) (v : Value) (name : String) :
    (v.mapRecords f).child? (.field name) = (v.mapRecord f).child? (.field name) := by
  cases v <;> rfl

theorem child?_mapRecord (s : Select) (v : Value) (name : String) :
    (v.mapRecord s.apply).child? (.field name) =
      (s.view? name).bind fun view => (v.child? (.field name)).map view.apply := by
  cases v with
  | object fields => exact get?_apply_view s fields name
  | _ => simp [Value.mapRecord, Value.child?]

theorem child?_apply (view : View) (v : Value) (step : Step) :
    (view.apply v).child? step =
      (view.step step).bind fun next => (v.child? step).map next.apply := by
  cases view with
  | whole => cases h : v.child? step <;> simp [apply, View.step, h]
  | record s =>
    cases step with
    | field name => exact child?_mapRecord s v name
    | item i =>
      cases v with
      | array items => exact Option.map_id'.symm
      | _ => rfl
  | attached s =>
    cases step with
    | field name => exact (child?_mapRecords _ v name).trans (child?_mapRecord s v name)
    | item i =>
      cases v with
      | array items => exact List.getElem?_map
      | _ => rfl

/-- What a narrowed value has at a path is what the value has there, narrowed by what is left of
the selection. -/
theorem at?_apply (view : View) (v : Value) (path : List Step) :
    (view.apply v).at? path =
      (view.follow path).bind fun rest => (v.at? path).map rest.apply := by
  induction path generalizing view v with
  | nil => simp [Value.at?, follow]
  | cons step path ih =>
    rw [Value.at?, child?_apply, follow, Value.at?]
    cases view.step step with
    | none => rfl
    | some next =>
      cases v.child? step with
      | none => simp
      | some u => simp [ih]

theorem keeps_apply (view : View) (v : Value) : view.Keeps v (view.apply v) := by
  constructor
  · rintro fields rfl
    cases view with
    | whole => exact ⟨fields, rfl, (List.filter_eq_self.mpr fun _ _ => rfl).symm⟩
    | record s | attached s => exact ⟨s.apply fields, rfl, s.names_apply fields⟩
  · rintro items rfl
    cases view with
    | attached s => exact ⟨_, rfl, List.length_map _⟩
    | whole | record s => exact ⟨items, rfl, rfl⟩
  · intro notObject notArray
    cases v with
    | object fields => exact absurd rfl (notObject fields)
    | array items => exact absurd rfl (notArray items)
    | _ => cases view <;> rfl
  · rintro rfl
    rfl

end View

/-! ## Selections one after another -/

theorem apply_apply (s t : Select) (r : Record) :
    s.apply (t.apply r) = r.filterMap fun e => (t.view? e.1).bind fun first =>
      (s.view? e.1).map fun second => (e.1, second.apply (first.apply e.2)) := by
  rw [apply_eq_filterMap s, apply_eq_filterMap t, List.filterMap_filterMap]
  congr 1
  funext e
  cases t.view? e.1 <;> rfl

theorem apply_idempotent (s : Select) (r : Record) : s.apply (s.apply r) = s.apply r := by
  rw [apply_apply, apply_eq_filterMap]
  congr 1
  funext e
  cases h : s.view? e.1 with
  | none => rfl
  | some view =>
    rcases view?_eq_some h with rfl | ⟨inner, rfl, hs⟩
    · rfl
    · have below (r : Record) : inner.apply (inner.apply r) = inner.apply r :=
        apply_idempotent inner r
      simp [View.apply, Value.mapRecords_mapRecords, below]
termination_by sizeOf s
decreasing_by exact sizeOf_lt_of_get? hs

theorem apply_comm (s t : Select) (r : Record) : s.apply (t.apply r) = t.apply (s.apply r) := by
  rw [apply_apply, apply_apply]
  congr 1
  funext e
  cases hs : s.view? e.1 with
  | none => cases t.view? e.1 <;> rfl
  | some a =>
    cases ht : t.view? e.1 with
    | none => rfl
    | some b =>
      rcases view?_eq_some hs with rfl | ⟨inner, rfl, hget⟩
      · rfl
      · rcases view?_eq_some ht with rfl | ⟨inner', rfl, -⟩
        · rfl
        · have below (r : Record) : inner.apply (inner'.apply r) = inner'.apply (inner.apply r) :=
            apply_comm inner inner' r
          simp [View.apply, Value.mapRecords_mapRecords, below]
termination_by sizeOf s
decreasing_by exact sizeOf_lt_of_get? hget

/-- A record keeps the fields that a selection lists, in their order. Wherever the selection can be
followed to a place of the record, the narrowed record has a value there, which keeps what is left
of the selection: the listed fields of a record, all items of a list, a scalar or a null as it is,
and everything below a plain field; it has no other places. Narrowing twice is narrowing once, and
two selections narrow in either order. -/
theorem narrows_at_every_depth (s t : Select) (r : Record) :
    Entries.names (s.apply r) = (Entries.names r).filter (fun name => (s.get? name).isSome) ∧
    (∀ path view v, (View.record s).follow path = some view →
      (Value.object r).at? path = some v →
        ∃ w, (Value.object (s.apply r)).at? path = some w ∧ view.Keeps v w) ∧
    (∀ path, (View.record s).follow path = none ∨ (Value.object r).at? path = none →
      (Value.object (s.apply r)).at? path = none) ∧
    s.apply (s.apply r) = s.apply r ∧
    s.apply (t.apply r) = t.apply (s.apply r) := by
  have below (path : List Step) : (Value.object (s.apply r)).at? path =
      ((View.record s).follow path).bind fun view => ((Value.object r).at? path).map view.apply :=
    View.at?_apply (.record s) (.object r) path
  refine ⟨names_apply s r, fun path view v hview hv => ?_, fun path none => ?_,
    apply_idempotent s r, apply_comm s t r⟩
  · rw [below, hview, hv]
    exact ⟨view.apply v, rfl, view.keeps_apply v⟩
  · rw [below]
    rcases none with hview | hr
    · rw [hview]
      rfl
    · rw [hr]
      cases (View.record s).follow path <;> rfl

def sale : Record := [("id", .text "s1"), ("note", .text "walk-in"), ("items", .array [
  .object [("id", .text "i1"), ("qty", .integer 2)],
  .object [("id", .text "i2"), ("qty", .integer 1)]])]

def quantities : Select := empty.nested "items" (empty.field "qty")

def secondQuantity : List Step := [.field "items", .item 1, .field "qty"]

theorem narrows_at_every_depth_sale :
    (View.record quantities).follow secondQuantity = some .whole ∧
      (Value.object sale).at? secondQuantity = some (.integer 1) ∧
      (Value.object (quantities.apply sale)).at? secondQuantity = some (.integer 1) ∧
      (Value.object (quantities.apply sale)).at? [.field "note"] = none := by
  obtain ⟨-, reached, hidden, -⟩ := narrows_at_every_depth quantities empty sale
  obtain ⟨w, hw, keeps⟩ := reached secondQuantity .whole (.integer 1) rfl rfl
  exact ⟨rfl, rfl, keeps.whole rfl ▸ hw, hidden _ (.inl rfl)⟩

end Select

end Relata
