import Relata.Proofs.Model.Matched
import Relata.Proofs.Model.SingleRow
import Relata.Proofs.Store.Selection

/-! # Creations

A creation is an insertion, and a lookup by the identity of the row after it. What it answers is
decided by the store as it is at the time of the lookup: the row that has the identity, or that the
row is lost where none has it.
-/

namespace Relata

open Std Text

/-! ### Lookups that are answered -/

theorem Scalar.holds_equal {s t : Scalar} (hs : s.isNull = false) (ht : t.isNull = false) :
    (Comparison.truth .equal s t).holds = (s.order t == .eq) := by
  rw [Comparison.truth, hs, ht]
  cases s.order t <;> rfl

theorem Condition.selects_keyed (f : Frame) (s : Scalar) (row : Row) :
    selects f (keyed s) row = (Comparison.truth .equal (f.scalar row Record.key)
      ((f.affinity Record.key).operand s)).holds := by
  rw [selects, truths, truths, Truth.all_singleton, truth]

theorem Table.Keyed.filter_keyed {t : Table} {f : Frame} {r : Row} {s : Scalar} (keyed : t.Keyed)
    (hf : f.definition = t.definition) (hr : r ∈ t.rows)
    (h : Condition.selects f (Condition.keyed s) r = true) :
    t.rows.filter (Condition.selects f (Condition.keyed s)) = [r] := by
  obtain ⟨c, hc, hname⟩ := keyed.identity
  obtain ⟨i, -, hindex, -⟩ := keyed.regular.exists_index hc
  rw [← hf, hname] at hindex
  have scalar (row : Row) : f.scalar row Record.key = t.definition.cell row Record.key := by
    rw [← hf, Definition.cell_of_index? hindex, Frame.scalar_of_index? (Frame.constant?_key _) hindex]
  rw [Condition.selects_keyed, scalar] at h
  obtain ⟨-, given, equal⟩ := Scalar.order_of_holds h
  have present : ((f.affinity Record.key).operand s).isNull = false := by
    revert given
    cases (f.affinity Record.key).operand s <;> simp [Scalar.isNull]
  rw [← keyed.filter_self hf hr]
  refine List.filter_congr fun row hrow => ?_
  rw [Condition.selects_keyed, scalar, Scalar.holds_equal (keyed.present row hrow) present,
    keyed.selects_eq hf hr, TransCmp.congr_right equal]

namespace Database

variable {db : Database} {table : String} {t : Table} {cs : List Condition}

theorem evaluates_keyed (keyed : t.Keyed) (s : Scalar) : db.Evaluates t (Condition.keyed s) := by
  obtain ⟨c, hc, hname⟩ := keyed.identity
  obtain ⟨i, -, hindex, -⟩ := keyed.regular.exists_index hc
  rw [hname] at hindex
  have meant : ((db.frame t).meaning? Record.key).isNone = false := by
    rw [Frame.meaning?, Frame.constant?_key,
      show (db.frame t).definition.index? Record.key = some i from hindex]
    rfl
  constructor
  · have unknown : Condition.unknown? (db.frame t) (Condition.keyed s) = none := by
      refine Condition.complaint?_eq_none.mpr ⟨rfl, fun v hv name hname => ?_⟩
      cases List.mem_singleton.mp hv
      cases hname
      rw [meant, Bool.false_and]
    rw [Frame.checkTested, unknown]
  · rw [Frame.checkPatterns, if_neg]
    simp [Condition.strainsAll, Condition.strains]

theorem Evaluates.exists_query (evaluates : db.Evaluates t cs) (ht : db.table? table = some t)
    (page : Page) : ∃ records, db.query .everything table cs [] page = .ok records := by
  have known := @Frame.meaning_of_checkTested (db.frame t) cs evaluates.tested rfl
  have use : (db.frame t).checkUse (Condition.columnsOfAll cs) = .ok () :=
    Frame.checkUse_ok rfl known
  have shown : (db.frame t).checkShown .everything = .ok () := rfl
  have names : (db.frame t).checkNames (Order.fields []) = .ok () := rfl
  rw [Database.query, table_eq ht]
  simp only [Bind.bind, Except.bind, Projection.measureList, shown, evaluates.tested, names, use,
    evaluates.patterns]
  exact ⟨_, rfl⟩

end Database

abbrev Command.lookup (table : String) (s : Scalar) : Command :=
  .query .everything table (Condition.keyed s) [] { take := some 1 }

theorem Command.names_lookup {table : String} (free : Sql.isKeyword table.toList = false)
    (s : Scalar) : ∀ name ∈ (lookup table s).names, Sql.isKeyword name.toList = false :=
  List.forall_mem_cons.mpr ⟨free, List.forall_mem_singleton.mpr (by decide)⟩

namespace Connection

theorem exists_lookup {c : Connection} {table : String} {t : Table} (keyed : t.Keyed)
    (known : c.database.table? table = some t) (free : Sql.isKeyword table.toList = false)
    (s : Scalar) : ∃ a, (c.execute (.lookup table s)).1 = .ok a := by
  have limits : (Command.lookup table s).checkLimits = .ok () := rfl
  obtain ⟨records, hquery⟩ :=
    (c.database.evaluates_keyed keyed s).exists_query known { take := some 1 }
  rw [execute_of_free (Command.names_lookup free s), runLimited, limits, run, run?, hquery]
  exact ⟨_, rfl⟩

end Connection

namespace Model

variable {m : Model} {fresh : String} {data : Record} {id : Value}

def rereads (m : Model) (id : Value) : Reply → Except Failure Record
  | .error f => .error f
  | .ok a =>
    match a.rows.head? with
    | some record => .ok record
    | none => .error (m.lostRow id)

def reread (m : Model) (id : Value) : Op Record := do
  match ← m.findUnique (.byKey id) with
  | some row => return row
  | none => throw (m.lostRow id)

theorem run_reread_bind {β : Type} {s : Scalar}
    (checked : m.checkFilter (Filter.eq [] Record.key id) = .ok ())
    (plain : PlainName m.table.toList) (present : id.isNull = false)
    (hs : id.toScalar Record.key = .ok s) (rest : Except Failure Record → Script β) :
    (m.reread id).run >>= rest =
      (m.perform (.lookup m.table s)).run >>= fun reply => rest (m.rereads id reply) := by
  have find : m.checkFind { filter := Filter.eq [] Record.key id } = .ok () :=
    checkFind_of_checkFilter checked
  have conditions : Filter.conditions (Filter.eq [] Record.key id) = .ok (Condition.keyed s) :=
    Filter.conditions_key present hs
  have command : Command.select m.table (Condition.keyed s) [] { take := some 1 } =
      .ok (.lookup m.table s) := by
    rw [Command.select, Filter.checkedName_of_plain plain]
    rfl
  rw [reread, Find.byKey, findUnique_eq, find, select, conditions]
  show (((liftM (Command.select m.table (Condition.keyed s) [] { take := some 1 }) >>= fun k =>
    m.perform k >>= fun a => pure a.rows) >>= fun rows => pure rows.head?) >>= _ :
      Op Record).run >>= rest = _
  rw [command]
  show ((((m.perform (.lookup m.table s)).run >>= _) >>= _) >>= _) >>= rest = _
  refine (Script.bind_assoc _ _ _).trans ((Script.bind_assoc _ _ _).trans
    ((Script.bind_assoc _ _ _).trans ?_))
  refine congrArg (Script.andThen _) (funext fun reply => ?_)
  cases reply with
  | error f => rfl
  | ok a =>
    have answered (found : Option Record) :
        (match found with
          | some record => pure record
          | none => throw (m.lostRow id) : Op Record).run >>= rest =
        rest (match found with
          | some record => .ok record
          | none => .error (m.lostRow id)) := by
      cases found <;> rfl
    exact answered a.rows.head?

/-- A creation whose data pass all checks is an insertion with a second reading after it. -/
theorem run_create_bind {β : Type} {k : Command}
    (checked : m.checkData (data.identified fresh).2 = .ok ())
    (hk : Command.insertion m.table (data.identified fresh).2 = .ok k)
    (rest : Except Failure Record → Script β) :
    (m.create fresh data).run >>= rest = (m.perform k).run >>= fun reply =>
      match reply with
      | .error f => rest (.error f)
      | .ok _ => (m.reread (data.identified fresh).1).run >>= rest := by
  have steps : m.create fresh data = (do
      m.checkData (data.identified fresh).2
      let k ← Command.insertion m.table (data.identified fresh).2
      let _ ← m.perform k
      m.reread (data.identified fresh).1) := rfl
  rw [steps, checked, hk]
  show ((m.perform k).run >>= _) >>= rest = _
  refine (Script.bind_assoc _ _ _).trans (congrArg (Script.andThen _) (funext fun reply => ?_))
  cases reply <;> rfl

/-- What a creation answers that reads its row again on a site: the row that has the identity
there, and that it is lost where none has it. -/
structure Rereads (m : Model) (id : Value) (site : Site) (result : Except Failure Record) :
    Prop where
  found : ∀ t, m.Keyed site.connection.database t → ∀ r ∈ t.rows,
    (Filter.truth (site.connection.database.frame t) r (Filter.eq [] Record.key id)).holds = true →
    result = .ok (t.definition.record r)
  lost : ∀ t, m.Keyed site.connection.database t → site.connection.database.Lacks t id →
    result = .error (m.lostRow id)

/-- What is read again on a site that was not shut. -/
theorem rereads_lookup {site : Site} {s : Scalar} (isOpen : site.isOpen = true)
    (free : Sql.isKeyword m.table.toList = false) (plain : PlainName m.table.toList)
    (present : id.isNull = false) (hs : id.toScalar Record.key = .ok s) :
    m.Rereads id site (m.rereads id (site.perform (.command (.lookup m.table s))).1) := by
  have conditions : Filter.conditions (Filter.eq [] Record.key id) = .ok (Condition.keyed s) :=
    Filter.conditions_key present hs
  have answers {t : Table} (keyed : m.Keyed site.connection.database t) {row : Option Row}
      (hrow : t.rows.filter (Condition.selects (site.connection.database.frame t)
        (Condition.keyed s)) = row.toList) :
      m.rereads id (site.perform (.command (.lookup m.table s))).1 =
        match row.map t.definition.record with
        | some record => .ok record
        | none => .error (m.lostRow id) := by
    obtain ⟨a, ha⟩ := Connection.exists_lookup keyed.rows keyed.known free s
    obtain ⟨rows, hperm, hrows⟩ :=
      Connection.execute_page plain keyed.known (Command.names_lookup free s) ha
    have hreply : (site.perform (.command (.lookup m.table s))).1 = .ok a := by
      rw [Site.perform_of_isOpen isOpen (by simp), Connection.perform, ha]
      rfl
    rw [hreply, rereads, hrows]
    rw [hrow] at hperm
    cases row with
    | none => rw [hperm.eq_nil]; rfl
    | some row => rw [hperm.eq_singleton]; rfl
  constructor
  · intro t keyed r hr holds
    rw [← Filter.selects_conditions conditions] at holds
    exact @answers t keyed (some r) (keyed.rows.filter_keyed rfl hr holds)
  · intro t keyed lacks
    refine @answers t keyed none (List.filter_eq_nil_iff.mpr fun r hr => ?_)
    rw [Filter.selects_conditions conditions, lacks r hr]
    exact Bool.false_ne_true

theorem run_create_cases (m : Model) (fresh : String) (data : Record) :
    (∃ f, (m.create fresh data).run = .done (.error f)) ∨
      m.checkData (data.identified fresh).2 = .ok () ∧
        ∃ k, Command.insertion m.table (data.identified fresh).2 = .ok k := by
  rw [create_eq, createAs]
  cases m.checkData (data.identified fresh).2 with
  | error f => exact .inl ⟨.fault f, rfl⟩
  | ok _ =>
    cases Command.insertion m.table (data.identified fresh).2 with
    | error f => exact .inl ⟨.fault f, rfl⟩
    | ok k => exact .inr ⟨rfl, k, rfl⟩

theorem exists_identity {k : Command} (checked : m.checkData (data.identified fresh).2 = .ok ())
    (hk : Command.insertion m.table (data.identified fresh).2 = .ok k) :
    m.checkFilter (Filter.eq [] Record.key (data.identified fresh).1) = .ok () ∧
      PlainName m.table.toList ∧
      ∃ s, (data.identified fresh).1.toScalar Record.key = .ok s := by
  have given := Entries.get?_identified fresh data
  obtain ⟨name, cells, hname, hcells, -⟩ := Command.insertion_ok hk
  obtain ⟨s, hs, -⟩ := (Command.get?_cells hcells Record.key).2 _ given
  refine ⟨checkFilter_key (Schema.admits_of_checkField
    (Schema.checkField_of_checkFields checked (List.mem_map_of_mem (Entries.mem_of_get? given)))),
    (Filter.checkedName_eq_ok hname).2, s, hs⟩

/-- An insertion that the store answers adds a row with the data. -/
theorem adds_of_insertion {c : Connection} {t : Table} {k : Command} {b : Answer}
    (keyed : m.Keyed c.database t)
    (checked : m.checkData (data.identified fresh).2 = .ok ())
    (hk : Command.insertion m.table (data.identified fresh).2 = .ok k)
    (distinct : Entries.Distinct (data.identified fresh).2)
    (answered : (c.execute k).1 = .ok b) :
    ∃ new, t.Adds c (c.execute k).2 new ∧
      t.definition.Fills c.database.now (data.identified fresh).2 new := by
  obtain ⟨cells, hcells, rfl, definite⟩ :=
    Command.insertion_definite (Entries.get?_identified fresh data) hk
  obtain ⟨number, held, hnumber, hleft⟩ :=
    Connection.execute_insert definite keyed.known answered
  have inserts : m.Inserts c (c.execute (.insert m.table cells)).2 t (data.identified fresh).2
      cells number :=
    ⟨checked, hcells, definite, ⟨b, Prod.ext answered rfl⟩, held, hnumber, hleft⟩
  exact ⟨_, inserts.adds keyed.known keyed.regular.distinct,
    Definition.fills_newRow keyed.rows.regular (declared_of_checkData keyed checked) distinct
      hcells hnumber _⟩

end Model

theorem Site.execute_of_perform {site : Site} {k : Command} {b : Answer}
    (h : (site.perform (.command k)).1 = .ok b) :
    (site.connection.execute k).1 = .ok b ∧
      (site.perform (.command k)).2.connection = (site.connection.execute k).2 := by
  cases isOpen : site.isOpen with
  | false =>
    rw [perform_of_shut isOpen (by simp)] at h
    cases h
  | true =>
    rw [perform_of_isOpen isOpen (by simp), Connection.perform] at h ⊢
    refine ⟨?_, rfl⟩
    cases ha : (site.connection.execute k).1 with
    | ok b' =>
      rw [ha] at h
      exact congrArg _ (Except.ok.inj h)
    | error r =>
      rw [ha] at h
      cases h

end Relata
