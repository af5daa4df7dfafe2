import Relata.Proofs.Model.Siblings
import Relata.Proofs.Query.Selected
import Relata.Proofs.Schema.Building

/-! # Faults that are justified

A fault of a name or of a column says what is so: the name is not plain, or the schema does not
have the column. The keys of a relation of a built schema are plain names that their tables may
have, so no reading of related rows ends with a fault of theirs.
-/

namespace Relata

open Text

namespace Fault

/-- What a fault says of a name, or of a column of a table, is so. -/
def Justified (s : Schema) : Fault → Prop
  | badName name => ¬PlainName name.toList
  | unknownField table field => s.admits table field = false
  | _ => True

namespace Only

variable {s : Schema} {table : String}

theorem checkedName (name : String) : Only (Justified s) (checkedName name) := by
  unfold Relata.checkedName
  split
  · exact ok name
  · next h => exact error (mt isPlainName_iff.mpr h)

theorem checkField (field : String) : Only (Justified s) (s.checkField table field) := by
  refine bind (checkedName field) fun field => ?_
  split
  · exact ok ()
  · next h => exact error (Bool.eq_false_iff.mpr h)

theorem checkFields (fields : List String) : Only (Justified s) (s.checkFields table fields) := by
  induction fields with
  | nil => exact ok ()
  | cons field rest ih => exact bind (checkField field) fun _ => ih

theorem translated (filter : Filter) : Only (Justified s) (Filter.conditions filter) := by
  refine conditions ?_ fun name _ => checkedName name
  rintro _ ⟨field, why, rfl⟩
  trivial

theorem checked (order : Order) : Only (Justified s) order.checked := by
  induction order with
  | nil => exact ok []
  | cons e rest ih => exact bind (checkedName e.1) fun _ => bind ih fun _ => ok _

theorem select (cs : List Condition) (order : Order) (page : Page) :
    Only (Justified s) (Command.select table cs order page) :=
  bind (checkedName table) fun _ => bind (checked order) fun _ => ok _

theorem checkFind {m : Model} (find : Find) : Only (Justified m.schema) (m.checkFind find) := by
  refine bind ?_ fun _ => bind (checkFields _) fun _ => checkFields _
  unfold Include.checkDepth
  split
  · exact error trivial
  · exact ok ()

end Only

end Fault

namespace Op

variable {α β : Type} {x : Op α} {f : α → Op β} {kind : Fault → Prop}

/-- Whatever a store replies, an operation ends with faults of a kind only. -/
def FindsOnly (kind : Fault → Prop) (x : Op α) : Prop :=
  x.run.Ends NoFault fun result => ∀ fault, result = .error (.fault fault) → kind fault

theorem Faultless.findsOnly (faultless : Faultless x) : FindsOnly kind x :=
  Script.Ends.mono faultless fun _ none fault h => absurd h (none fault)

theorem findsOnly_pure (a : α) : FindsOnly kind (pure a : Op α) :=
  (faultless_pure a).findsOnly

theorem FindsOnly.bind (first : FindsOnly kind x) (rest : ∀ a, FindsOnly kind (f a)) :
    FindsOnly kind (x >>= f) := by
  have hbind : (x >>= f).run = x.run >>= ExceptT.bindCont f := rfl
  rw [FindsOnly, hbind]
  refine Script.Ends.bind first fun result hresult => ?_
  cases result with
  | ok a => exact rest a
  | error e =>
    rintro fault ⟨⟩
    exact hresult fault rfl

theorem FindsOnly.check {e : Except Fault α} (first : Fault.Only kind e)
    (rest : ∀ a, FindsOnly kind (f a)) : FindsOnly kind (liftM e >>= f) := by
  cases e with
  | ok a => exact rest a
  | error fault =>
    rintro _ ⟨⟩
    exact first fault rfl

end Op

namespace Relation

def keyFaults (r : Relation) (table : String) : List Fault :=
  [.unknownField table r.parentKey, .unknownField r.target r.targetKey,
    .badName r.parentKey, .badName r.target, .badName r.targetKey]

theorem not_mem_keyFaults {s : Schema} {table field : String} {r : Relation} {e : Fault}
    (fits : Declaration.Fits s (table, field, r)) (justified : e.Justified s) :
    e ∉ r.keyFaults table := by
  intro mem
  simp only [keyFaults, List.mem_cons, List.not_mem_nil, or_false] at mem
  rcases mem with rfl | rfl | rfl | rfl | rfl
  · exact Bool.false_ne_true (justified.symm.trans fits.parent)
  · exact Bool.false_ne_true (justified.symm.trans fits.target)
  · exact justified fits.plain_parentKey
  · exact justified (fits.plain _ (by simp))
  · exact justified fits.plain_targetKey

end Relation

namespace Model

open Op

variable {m : Model}

theorem findsOnly_select (f : Filter) (order : Order) (page : Page) :
    FindsOnly (Fault.Justified m.schema) (m.select f order page) :=
  .check (.translated f) fun _ => .check (.select _ _ _) fun _ =>
    .bind (faultless_perform _ _).findsOnly fun _ => findsOnly_pure _

theorem findsOnly_attach (tree : Include) (rows : List Record) :
    FindsOnly (Fault.Justified m.schema) (m.attach tree rows) := by
  induction tree using Include.induction generalizing m rows with
  | nil => exact findsOnly_pure rows
  | cons field scope rest ihscope ihrest =>
    rw [attach]
    split
    · exact ihrest rows
    · next r _ =>
      refine .bind ?_ fun rows => ihrest rows
      -- The model of the target has the same schema, so its faults are justified by this one.
      obtain ⟨filter, order, page, select, nested⟩ := scope
      rw [attachScope]
      split
      · exact .bind (findsOnly_pure _) fun _ => findsOnly_pure _
      · refine .check (@Fault.Only.checkFind (m.related r.target) _) fun _ => ?_
        refine .bind (@findsOnly_select (m.related r.target) _ _ _) fun rows => ?_
        exact .bind (@ihscope (m.related r.target) rows) fun _ => findsOnly_pure _

/-- The fields of a query of related rows are those of its scope, after the key. -/
theorem checkFind_keyed {find : Find} {key : String} (plain : PlainName key.toList)
    (admits : m.schema.admits m.table key = true) (keys : List Value) :
    m.checkFind { find with filter := Filter.merge [.test key (.among keys)] find.filter } =
      m.checkFind find := by
  have hkey : m.schema.checkField m.table key = .ok () := by
    rw [Schema.checkField, Filter.checkedName_of_plain plain]
    exact if_pos admits
  have hfilter : m.checkFilter (Filter.merge [.test key (.among keys)] find.filter) =
      m.checkFilter find.filter := by
    rw [checkFilter, Filter.merge, List.singleton_append, Filter.fields, Schema.checkFields, hkey]
    rfl
  rw [checkFind, hfilter]
  rfl

end Model

theorem Value.bindable_of_key? {v : Value} {k : Key} (h : v.key? = some k) : v.Bindable := by
  unfold key? at h
  split at h
  · next s hs => exact (v.toScalar_isOk_iff _).mp ⟨s, hs⟩
  · cases h

theorem Filter.conditions_of_parents {key : String} (plain : PlainName key.toList) (field : String)
    (parents : List Record) : ∃ c, ∀ filter, conditions
      (merge [.test key (.among (Record.distinctValues field [] parents))] filter) =
        (conditions filter).map (c :: ·) := by
  have bindable : ∀ v ∈ Record.distinctValues field [] parents, v.Bindable := by
    intro v hv
    obtain ⟨k, hk⟩ := Record.key?_of_mem_distinctValues hv
    exact v.bindable_of_key? hk
  obtain ⟨c, hc⟩ := (@Test.exists_condition_listed key _ bindable).1
  refine ⟨c, fun filter => ?_⟩
  rw [merge, List.singleton_append, conditions, nodeCondition?, checkedName_of_plain plain]
  simp only [Bind.bind, Except.bind, hc]
  cases conditions filter <;> rfl

namespace Declaration

open Declaring

/-- A schema is built of consistent declarations and of no others, whether tables or relations
are declared first, and it has what was declared. Its models find no fault with the keys of a
relation: these pass the check of a query of related rows and add one condition to it, and
whatever the store does, no reading of related rows ends with a fault of theirs. -/
theorem build_consistent (steps : List Declaring) :
    ((∃ s, (ofSteps steps).build = .ok s) ↔ Consistent steps) ∧
    (∀ others, others.filterMap Declaring.table? = steps.filterMap Declaring.table? →
      others.filterMap Declaring.relation? = steps.filterMap Declaring.relation? →
        (ofSteps others).build = (ofSteps steps).build) ∧
    ∀ s, (ofSteps steps).build = .ok s → s.Declares steps ∧
      ∀ m : Model, m.schema = s → ∀ table field r, .relation table field r ∈ steps →
        (∀ keys find, (m.related r.target).checkFind
            { find with filter := Filter.merge [.test r.targetKey (.among keys)] find.filter } =
          (m.related r.target).checkFind find) ∧
        (∀ parents, ∃ c, ∀ filter, Filter.conditions (Filter.merge
            [.test r.targetKey (.among (Record.distinctValues r.parentKey [] parents))] filter) =
          (Filter.conditions filter).map (c :: ·)) ∧
        ∀ (session : Session) tree rows e,
          (session.run (m.attach tree rows).run).1 = .error (.fault e) →
            e ∉ r.keyFaults table := by
  refine ⟨exists_build_iff, fun others htables hrelations => ?_, fun s built =>
    ⟨Schema.declares_build built, ?_⟩⟩
  · rw [ofSteps_eq, ofSteps_eq, htables, hrelations]
  · rintro m rfl table field r declared
    have fits := Schema.fits_build built declared
    refine ⟨fun keys find => ?_, fun parents => ?_, fun session tree rows e h => ?_⟩
    · exact @Model.checkFind_keyed (m.related r.target) find _ fits.plain_targetKey fits.target keys
    · exact Filter.conditions_of_parents fits.plain_targetKey _ parents
    · exact r.not_mem_keyFaults fits (session.run_ends (Model.findsOnly_attach tree rows) e h)

def itemSteps : List Declaring := [
  .relation "orders" "items" ⟨.oneToMany, "items", "order_id", "id"⟩, .table "orders" ["status"],
  .table "items" ["quantity"], .table "items" ["order_id", "quantity"]]

def itemStepsMixed : List Declaring := [
  .table "orders" ["status"], .table "items" ["quantity"],
  .relation "orders" "items" ⟨.oneToMany, "items", "order_id", "id"⟩,
  .table "items" ["order_id", "quantity"]]

theorem build_consistent_items :
    (ofSteps itemSteps).build = .ok Model.itemModel.schema ∧ Consistent itemSteps ∧
      (ofSteps itemStepsMixed).build = (ofSteps itemSteps).build ∧
      Model.itemModel.schema.relation? "orders" "items" =
        some ⟨.oneToMany, "items", "order_id", "id"⟩ ∧
      ∀ (session : Session) tree rows,
        (session.run (Model.itemModel.attach tree rows).run).1 ≠
          .error (.fault (.unknownField "items" "order_id")) := by
  have built : (ofSteps itemSteps).build = .ok Model.itemModel.schema := rfl
  obtain ⟨accepts, mixed, declares⟩ := build_consistent itemSteps
  obtain ⟨has, reads⟩ := declares _ built
  have declared : .relation "orders" "items" ⟨.oneToMany, "items", "order_id", "id"⟩ ∈ itemSteps :=
    List.mem_cons_self
  refine ⟨built, accepts.mp ⟨_, built⟩, mixed itemStepsMixed rfl rfl,
    (has.relation_iff _ _ _).mpr declared, fun session tree rows h => ?_⟩
  exact (reads Model.itemModel rfl _ _ _ declared).2.2 session tree rows _ h
    (by simp [Relation.keyFaults, Relation.targetKey])

end Declaration

end Relata
