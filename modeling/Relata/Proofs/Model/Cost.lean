import Relata.Proofs.Model.Calls
import Relata.Proofs.Query.Refusals
import Relata.Proofs.Script.Cost
import Relata.Proofs.Script.Results

/-! # What readings cost

A reading costs one statement for its rows and at most one for each relation of its tree that
the schema knows, however many rows there are. A tree with too many levels is refused before
any statement, and one within the limit at no level.
-/

namespace Relata

instance : LawfulMonad Script :=
  LawfulMonad.mk' Script Script.bind_pure (fun _ _ => rfl) Script.bind_assoc

namespace Include

mutual

/-- The relations with and below a scope that a schema knows. -/
def scopeEdges (schema : Schema) (table : String) : Scope → Nat
  | ⟨_, _, _, _, nested⟩ => 1 + edges schema table nested

/-- The relations of a tree of a table that a schema knows, on the way to which it knows every
relation. -/
def edges (schema : Schema) (table : String) : List (String × Scope) → Nat
  | [] => 0
  | (field, scope) :: rest =>
    (match schema.relation? table field with
      | some r => scopeEdges schema r.target scope
      | none => 0) + edges schema table rest

end

theorem scopeEdges_eq (schema : Schema) (table : String) (scope : Scope) :
    scopeEdges schema table scope = 1 + edges schema table scope.nested := by
  cases scope
  rw [scopeEdges]

/-- The scopes of a tree, at any level. -/
inductive Has : Include → Scope → Prop
  | here {tree : Include} {field : String} {scope : Scope} (h : (field, scope) ∈ tree) :
      Has tree scope
  | under {tree : Include} {field : String} {scope inner : Scope} (h : (field, scope) ∈ tree)
      (hinner : Has scope.nested inner) : Has tree inner

theorem depth_of_mem {tree : Include} {field : String} {scope : Scope}
    (h : (field, scope) ∈ tree) : depth scope.nested < depth tree := by
  induction tree with
  | nil => cases h
  | cons e rest ih =>
    obtain ⟨name, first⟩ := e
    rw [depth]
    rcases List.mem_cons.mp h with he | hrest
    · cases he
      obtain ⟨filter, order, page, select, nested⟩ := scope
      have : scopeDepth ⟨filter, order, page, select, nested⟩ = 1 + depth nested := rfl
      simp only
      omega
    · have := ih hrest
      omega

theorem Has.depth_lt {tree : Include} {scope : Scope} (h : Has tree scope) :
    depth scope.nested < depth tree := by
  induction h with
  | here h => exact depth_of_mem h
  | under h _ ih => exact Nat.lt_trans ih (depth_of_mem h)

end Include

def Shallow {α : Type} (x : Except Fault α) : Prop :=
  ∀ limit, x ≠ .error (.tooDeep limit)

namespace Shallow

variable {α β : Type} {x : Except Fault α}

theorem ok (a : α) : Shallow (.ok a) := by
  intro limit h
  cases h

theorem bind {f : α → Except Fault β} (first : Shallow x) (rest : ∀ a, Shallow (f a)) :
    Shallow (x >>= f) := by
  cases x with
  | error e =>
    intro limit h
    exact first limit (congrArg _ (Except.error.inj h))
  | ok a => exact rest a

theorem checkedName (name : String) : Shallow (checkedName name) := by
  intro limit h
  rw [Relata.checkedName] at h
  split at h <;> cases h

theorem conditions (filter : Filter) : Shallow (Filter.conditions filter) := by
  have only : Fault.Only (fun e => ∀ limit, e ≠ .tooDeep limit) (Filter.conditions filter) := by
    refine Fault.Only.conditions ?_ fun name _ e he limit h => ?_
    · rintro _ ⟨field, why, rfl⟩ limit
      simp
    · exact checkedName name limit (by rw [he, h])
  exact fun limit h => only _ h limit rfl

theorem checked (order : Order) : Shallow order.checked := by
  induction order with
  | nil => exact ok []
  | cons e rest ih => exact bind (checkedName e.1) fun name => bind ih fun rest => ok _

theorem select (table : String) (cs : List Condition) (order : Order) (page : Page) :
    Shallow (Command.select table cs order page) :=
  bind (checkedName table) fun _ => bind (checked order) fun _ => ok _

theorem checkFields (schema : Schema) (table : String) (fields : List String) :
    Shallow (schema.checkFields table fields) := by
  induction fields with
  | nil => exact ok ()
  | cons field rest ih =>
    refine bind (bind (checkedName field) fun name => ?_) fun _ => ih
    split
    · exact ok ()
    · intro limit h
      cases h

theorem checkFind {m : Model} {find : Find} (within : Include.depth find.attach ≤ m.depthLimit) :
    Shallow (m.checkFind find) := by
  have hdepth : find.attach.checkDepth m.depthLimit = .ok () := if_neg (by omega)
  rw [Model.checkFind, hdepth]
  exact bind (ok ()) fun _ => bind (checkFields _ _ _) fun _ => checkFields _ _ _

end Shallow

namespace Op

variable {α β : Type} {x : Op α} {f : α → Op β}

/-- An operation that never ends with too many levels, whatever it is replied. -/
def Shallow (x : Op α) : Prop :=
  x.run.Ends NoFault fun result => ∀ limit, result ≠ .error (.fault (.tooDeep limit))

theorem shallow_pure (a : α) : Shallow (pure a : Op α) := by
  intro limit h
  cases h

theorem Faultless.shallow (h : Faultless x) : Shallow x :=
  Script.Ends.mono h fun _ hresult limit => hresult (.tooDeep limit)

theorem Shallow.check {e : Except Fault α} (checks : Relata.Shallow e) (rest : ∀ a, Shallow (f a)) :
    Shallow (liftM e >>= f) := by
  cases e with
  | error fault =>
    intro limit h
    cases h
    exact checks limit rfl
  | ok a => exact rest a

theorem Shallow.bind (first : Shallow x) (rest : ∀ a, Shallow (f a)) : Shallow (x >>= f) := by
  have hbind : (x >>= f).run = x.run >>= ExceptT.bindCont f := rfl
  rw [Shallow, hbind]
  refine Script.Ends.bind first fun result hresult => ?_
  cases result with
  | error e =>
    intro limit h
    exact hresult limit (congrArg _ (Except.error.inj h))
  | ok a => exact rest a

end Op

namespace Model

open Include (depth edges)

variable (m : Model)

def Operation.find? {α : Type} : Operation α → Option Find
  | .findMany find => some find
  | .findFirst find => some find
  | .findUnique find => some find
  | _ => none

def reading (r : Relation) (scope : Scope) (keys : List Value) : Find where
  filter := Filter.merge [.test r.targetKey (.among keys)] scope.filter
  order := scope.order
  attach := scope.nested

def relatedRows (r : Relation) (scope : Scope) (parents : List Record) : Op (List Record) :=
  let keys := Record.distinctValues r.parentKey [] parents
  if keys.isEmpty then pure [] else (m.related r.target).findMany (reading r scope keys)

theorem attachScope_eq (field : String) (r : Relation) (scope : Scope) (parents : List Record) :
    m.attachScope field r scope parents = do
      let rows ← m.relatedRows r scope parents
      return parents.map fun parent =>
        Entries.set parent field (r.attached scope.page scope.select (r.group rows parent)) := by
  obtain ⟨filter, order, page, select, nested⟩ := scope
  rw [attachScope, relatedRows]
  split
  · rfl
  · simp only [*, reading, findMany, complete, Select.narrowAll, bind_assoc, bind_pure]

theorem distinctValues_eq_nil {field : String} {seen : List Key} {rows : List Record}
    (h : ∀ row ∈ rows, row.keyOf? field = none) : Record.distinctValues field seen rows = [] := by
  induction rows with
  | nil => rfl
  | cons row rows ih =>
    obtain ⟨hrow, hrows⟩ := List.forall_mem_cons.mp h
    rw [Record.distinctValues, hrow]
    split
    · next heq => cases heq
    · exact ih hrows

/-- Where no row has a key, nothing is asked for. -/
theorem run_attachScope_keyless {field : String} {r : Relation} {scope : Scope}
    {parents : List Record} (keyless : ∀ p ∈ parents, p.keyOf? r.parentKey = none) (s : Session) :
    ∃ rows, s.run (m.attachScope field r scope parents).run = (.ok rows, s) := by
  rw [attachScope_eq, relatedRows, distinctValues_eq_nil keyless]
  exact ⟨_, rfl⟩

theorem within_select (f : Filter) (order : Order) (page : Page) :
    (m.select f order page).Within 1 :=
  .check fun _ => .check fun _ => .map (Op.within_perform _ _) Answer.rows

theorem within_findMany {find : Find} {n : Nat}
    (attaches : ∀ rows, (m.attach find.attach rows).Within n) :
    (m.findMany find).Within (1 + n) :=
  .check fun _ => .bind (m.within_select _ _ _) fun rows => .map (attaches rows) _

/-- Attaching a tree costs at most one statement for each relation that the schema knows. -/
theorem within_attach (tree : Include) (rows : List Record) :
    (m.attach tree rows).Within (edges m.schema m.table tree) := by
  induction tree using Include.induction generalizing m rows with
  | nil => exact Op.within_pure rows
  | cons field scope rest ihscope ihrest =>
    rw [attach, edges]
    split
    · next hr =>
      simp only [hr, Nat.zero_add]
      exact ihrest m rows
    · next r hr =>
      simp only [hr]
      refine .bind ?_ fun rows => ihrest m rows
      rw [attachScope_eq, Include.scopeEdges_eq]
      refine .map ?_ _
      rw [relatedRows]
      split
      · exact Op.within_pure _
      · exact (m.related r.target).within_findMany fun rows => ihscope (m.related r.target) rows

theorem within_ask {α : Type} {o : Operation α} {find : Find} (reads : o.find? = some find) :
    (m.ask o).Within (1 + edges m.schema m.table find.attach) := by
  have attaches := m.within_attach find.attach
  cases o with
  | findMany f =>
    cases reads
    exact m.within_findMany attaches
  | findFirst f =>
    cases reads
    exact .map (@within_findMany m { find with page := { find.page with take := some 1 } } _
      attaches) _
  | findUnique f =>
    cases reads
    exact .check fun _ => .bind (m.within_select _ _ _) fun rows =>
      .map (.map (attaches rows) _) _
  | _ => cases reads

/-- A tree with too many levels is refused before anything is asked for. -/
theorem ask_of_tooDeep {α : Type} {o : Operation α} {find : Find} (reads : o.find? = some find)
    (deep : m.depthLimit < depth find.attach) :
    (m.ask o).run = .done (.error (.fault (.tooDeep m.depthLimit))) := by
  have hcheck {f : Find} (hf : f.attach = find.attach) :
      m.checkFind f = .error (.tooDeep m.depthLimit) := by
    have : f.attach.checkDepth m.depthLimit = .error (.tooDeep m.depthLimit) :=
      if_pos (by rwa [hf])
    rw [checkFind, this]
    rfl
  cases o with
  | findMany f =>
    cases reads
    rw [ask, findMany, hcheck rfl]
    rfl
  | findFirst f =>
    cases reads
    rw [ask, findFirst, findMany,
      @hcheck { find with page := { find.page with take := some 1 } } rfl]
    rfl
  | findUnique f =>
    cases reads
    rw [ask, findUnique, hcheck rfl]
    rfl
  | _ => cases reads

theorem shallow_select (f : Filter) (order : Order) (page : Page) :
    (m.select f order page).Shallow :=
  .check (.conditions f) fun _ => .check (.select _ _ _ _) fun _ =>
    .bind (Op.faultless_perform ..).shallow fun _ => Op.shallow_pure _

theorem shallow_findMany {find : Find} (levels : depth find.attach ≤ m.depthLimit)
    (attaches : ∀ rows, (m.attach find.attach rows).Shallow) : (m.findMany find).Shallow :=
  .check (.checkFind levels) fun _ => .bind (m.shallow_select _ _ _) fun rows =>
    .bind (attaches rows) fun _ => Op.shallow_pure _

theorem shallow_attach (tree : Include) (rows : List Record) (levels : depth tree ≤ m.depthLimit) :
    (m.attach tree rows).Shallow := by
  induction tree using Include.induction generalizing m rows with
  | nil => exact Op.shallow_pure rows
  | cons field scope rest ihscope ihrest =>
    have hnested := Include.depth_of_mem (List.mem_cons_self (a := (field, scope)) (l := rest))
    have hrest : depth rest ≤ m.depthLimit := by
      rw [depth] at levels
      omega
    rw [attach]
    split
    · exact ihrest m rows hrest
    · next r hr =>
      refine .bind ?_ fun rows => ihrest m rows hrest
      rw [attachScope_eq]
      refine .bind ?_ fun rows => Op.shallow_pure _
      rw [relatedRows]
      split
      · exact Op.shallow_pure _
      · have hlimit : depth scope.nested ≤ (m.related r.target).depthLimit :=
          Nat.le_trans (Nat.le_of_lt hnested) levels
        exact (m.related r.target).shallow_findMany hlimit fun rows =>
          ihscope (m.related r.target) rows hlimit

theorem shallow_ask {α : Type} {o : Operation α} {find : Find} (reads : o.find? = some find)
    (levels : depth find.attach ≤ m.depthLimit) : (m.ask o).Shallow := by
  have attaches rows := m.shallow_attach find.attach rows levels
  cases o with
  | findMany f =>
    cases reads
    exact m.shallow_findMany levels attaches
  | findFirst f =>
    cases reads
    exact .bind (@shallow_findMany m { find with page := { find.page with take := some 1 } } levels
      attaches) fun _ => Op.shallow_pure _
  | findUnique f =>
    cases reads
    exact .check (.checkFind levels) fun _ => .bind (m.shallow_select _ _ _) fun rows =>
      .bind (.bind (attaches rows) fun _ => Op.shallow_pure _) fun _ => Op.shallow_pure _
  | _ => cases reads

/-- What a reading costs is bounded by its tree. The store executes one statement for the rows
and at most one for each relation that the schema knows, besides what was left behind before;
none for a relation whose parents have no key. A tree with too many levels is refused with
nothing executed; within the limit neither the reading nor any reading for a scope of the tree
finds too many levels, at any time. -/
theorem cost_of_reading {α : Type} {o : Operation α} {find : Find} (reads : o.find? = some find)
    (s : Session) :
    (s.run (m.ask o).run).2.site.executed ≤
        s.site.executed + s.owed + (1 + edges m.schema m.table find.attach) ∧
      (∀ (t : Session) table field r scope parents,
        (∀ p ∈ parents, Record.keyOf? p r.parentKey = none) →
        ∃ rows, t.run ((m.related table).attachScope field r scope parents).run = (.ok rows, t)) ∧
      (m.depthLimit < depth find.attach →
        s.run (m.ask o).run = (.error (.fault (.tooDeep m.depthLimit)), s)) ∧
      (depth find.attach ≤ m.depthLimit →
        (∀ limit, (s.run (m.ask o).run).1 ≠ .error (.fault (.tooDeep limit))) ∧
        ∀ scope, Include.Has find.attach scope → ∀ (t : Session) table r keys limit,
          (t.run ((m.related table).findMany (reading r scope keys)).run).1 ≠
            .error (.fault (.tooDeep limit))) := by
  refine ⟨?_, ?_, ?_, ?_⟩
  · have := Session.executed_run (m.within_ask reads) s
    omega
  · intro t table field r scope parents keyless
    exact (m.related table).run_attachScope_keyless keyless t
  · intro deep
    rw [m.ask_of_tooDeep reads deep]
    rfl
  · intro levels
    refine ⟨Session.run_ends (m.shallow_ask reads levels) s, ?_⟩
    intro scope has t table r keys
    have hnested : depth scope.nested ≤ (m.related table).depthLimit :=
      Nat.le_trans (Nat.le_of_lt has.depth_lt) levels
    exact Session.run_ends ((m.related table).shallow_findMany hnested fun rows =>
      (m.related table).shallow_attach _ rows hnested) t

/-- All users with their latest posts cost two statements at most. -/
theorem cost_of_reading_users :
    let find : Find := { attach := [("posts", postScope)] }
    let result := (Session.ofDatabase postDatabase).run (userModel.ask (.findMany find)).run
    result.2.site.executed ≤ 2 ∧ ∀ limit, result.1 ≠ .error (.fault (.tooDeep limit)) := by
  have h := userModel.cost_of_reading (o := .findMany { attach := [("posts", postScope)] }) rfl
    (Session.ofDatabase postDatabase)
  have hedges : edges userModel.schema userModel.table [("posts", postScope)] = 1 := rfl
  obtain ⟨hcost, -, -, hlevels⟩ := h
  refine ⟨?_, (hlevels (by decide)).1⟩
  rw [hedges] at hcost
  exact hcost

end Model

end Relata
