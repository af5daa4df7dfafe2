import Relata.Proofs.Model.FailedWrites
import Relata.Proofs.Model.Following
import Relata.Proofs.Model.SingleRow
import Relata.Proofs.Store.Places

/-! # What rows retain

A change of a table leaves as many rows as there were. Each of them is as before in what is not
set: whichever name is given for a column or for the number of a row, the row retains every
other place.
-/

namespace Relata

open Text

/-! ## Tables -/

/-- Some rows are those of a table, each as it was in all that the spared names stand for. -/
def Table.Retains (t : Table) (spared : String → Prop) (rows : List Row) : Prop :=
  ∃ g : Row → Row, rows.Perm (t.rows.map g) ∧
    ∀ row ∈ t.rows, ∀ name, spared name → ∀ f : Frame, f.definition = t.definition →
      f.scalar (g row) name = f.scalar row name

namespace Table.Retains

variable {t : Table} {spared : String → Prop} {rows rows' : List Row}

theorem refl (t : Table) (spared : String → Prop) : t.Retains spared t.rows :=
  ⟨id, by rw [List.map_id], fun _ _ _ _ _ _ => rfl⟩

theorem trans (first : t.Retains spared rows)
    (next : ({ t with rows } : Table).Retains spared rows') : t.Retains spared rows' := by
  obtain ⟨g, hperm, hg⟩ := first
  obtain ⟨g', hperm', hg'⟩ := next
  refine ⟨g' ∘ g, ?_, fun row hrow name hname f hf => ?_⟩
  · rw [← List.map_map]
    exact hperm'.trans (hperm.map g')
  · have hmem : g row ∈ rows := hperm.mem_iff.mpr (List.mem_map_of_mem hrow)
    exact (hg' _ hmem name hname f hf).trans (hg row hrow name hname f hf)

theorem length_eq (retains : t.Retains spared rows) : rows.length = t.rows.length := by
  obtain ⟨g, hperm, -⟩ := retains
  rw [hperm.length_eq, List.length_map]

theorem changed (regular : t.Regular) {cells : List (String × Scalar)} (selected : Row → Bool)
    (apart : ∀ name, spared name → ∀ e ∈ cells, ¬ t.definition.SamePlace e.1 name)
    (hrows : rows.Perm (t.rows.map fun row =>
      if selected row then t.definition.rewritten cells row else row)) : t.Retains spared rows := by
  refine ⟨_, hrows, fun row hrow name hname f hf => ?_⟩
  split
  · exact Definition.scalar_rewritten regular.regular (regular.fits row hrow) (apart name hname) hf
  · rfl

end Table.Retains

/-! ## Connections -/

namespace Connection

variable {c d e : Connection} {table : String} {declared : Definition} {spared : String → Prop}

/-- If a table is declared in a certain way, its rows are still there afterwards, as they were in
all that the spared names stand for. -/
def Retains (table : String) (declared : Definition) (spared : String → Prop)
    (c d : Connection) : Prop :=
  c.database.Regular → ∀ t, c.database.table? table = some t → t.definition = declared →
    d.database.Regular ∧
      ∃ rows, d.database.table? table = some { t with rows } ∧ t.Retains spared rows

namespace Retains

theorem of_database (h : d.database = c.database) : c.Retains table declared spared d :=
  fun regular t known _ => by
    rw [h]
    exact ⟨regular, t.rows, known, .refl t spared⟩

theorem refl (c : Connection) : c.Retains table declared spared c :=
  of_database rfl

theorem trans (first : c.Retains table declared spared d)
    (next : d.Retains table declared spared e) : c.Retains table declared spared e := by
  intro regular t known hdef
  obtain ⟨regular, rows, known, retains⟩ := first regular t known hdef
  obtain ⟨regular, rows', known, retains'⟩ := next regular _ known hdef
  exact ⟨regular, rows', known, retains.trans retains'⟩

theorem update {cells : List (String × Scalar)} {cs : List Condition}
    (named : PlainName table.toList) (plain : ∀ x ∈ cs, Condition.Plain x)
    (names : ∀ cell ∈ cells, PlainName cell.1.toList) (some : cells ≠ [])
    (apart : ∀ name, spared name → ∀ cell ∈ cells, ¬ declared.SamePlace cell.1 name) :
    c.Retains table declared spared (c.execute (.update table cells cs)).2 := by
  cases hanswer : (c.execute (.update table cells cs)).1 with
  | error r => exact of_database (SameData.execute hanswer).database
  | ok a =>
    rintro regular t known rfl
    obtain ⟨k', hrun, hk'⟩ := execute_ok rfl hanswer
    obtain ⟨cs', rfl⟩ : ∃ cs', k' = .update table cells cs' := by
      rcases hk' with rfl | ⟨-, hread⟩
      · exact ⟨cs, rfl⟩
      · exact Command.assignment_of_read named plain some names hread
    obtain ⟨⟨db, n⟩, hdb, hsettle⟩ := bind_eq_ok.mp hrun
    rw [(settle_ok hsettle).2]
    refine ⟨regular.update hdb, ?_⟩
    obtain ⟨u, rows, hu, hchange, rfl⟩ := Database.update_ok hdb
    cases (Database.writable_eq known).symm.trans hu
    obtain ⟨rfl, -⟩ := Definition.changeRows_ok hchange
    refine ⟨_, Database.table?_setRows known _, ?_⟩
    exact .changed (regular.tables t (Database.mem_of_table? known)) _ apart
      (List.mergeSort_perm _ _)

end Retains

end Connection

/-! ## Updates -/

namespace Definition

variable {d : Definition} {data : Record}

theorem Spares.apart {name : String} (spares : d.Spares data name)
    {cells : List (String × Scalar)} (h : Command.cells (data.erase Record.key) = .ok cells) :
    ∀ e ∈ cells, ¬ d.SamePlace e.1 name := by
  intro e he
  refine spares e.1 ?_
  rw [← (Command.names_cells h).1]
  exact List.mem_map_of_mem he

theorem spares_key_of_columns (regular : d.Regular)
    (identity : ∃ c ∈ d.columns, c.name = Record.key)
    (columns : ∀ n ∈ Entries.names data, ∃ c ∈ d.columns, c.name = n) :
    d.Spares data Record.key := by
  obtain ⟨b, hb, hkey⟩ := identity
  intro n hn same
  obtain ⟨e, he, rfl⟩ := List.mem_map.mp hn
  obtain ⟨hmem, hne⟩ := List.mem_filter.mp he
  obtain ⟨c, hc, hname⟩ := columns e.1 (List.mem_map_of_mem hmem)
  rw [← hname, ← hkey] at same
  have hcb : c = b := by
    rcases same with hfolded | ⟨hnumber, hnumber'⟩
    · exact regular.eq_of_folded hc hb hfolded
    · have isKey {a : Column} (ha : a ∈ d.columns) (h : d.isNumber a.name = true) :
          d.isKey a.name = true := by
        obtain ⟨i, -, hindex, -⟩ := regular.exists_index ha
        rwa [← isNumber_of_index? hindex]
      exact regular.eq_of_isKey hc hb (isKey hc hnumber) (isKey hb hnumber')
  rw [← hname, hcb, hkey] at hne
  simp at hne

end Definition

namespace Model

variable {m : Model} {s : Session} {t : Table} {f : Filter} {data : Record}
  {declared : Definition} {spared : String → Prop}

/-- A job of an update retains what the data spare. -/
theorem Assigns.retains {job : Job} (assigns : m.Assigns data job)
    (spares : m.checkData data = .ok () → ∀ name, spared name → declared.Spares data name)
    (c : Connection) : c.Retains m.table declared spared (c.perform job).2 := by
  rcases assigns with ⟨k, rfl, hk⟩ | ⟨hcheck, f, cs, k, hcs, hk, rfl⟩
  · exact .of_database (congrArg _ (Connection.snd_execute_of_select hk))
  · obtain ⟨cells, hcells, rfl, named, names, some⟩ := Command.assignment_cells hk
    have plain := Filter.written_conditions (fun _ _ hname => hname) hcs
    exact .update named plain names some fun name hname => (spares hcheck name hname).apart hcells

/-- Data leave the identities of rows if none of their names stands for that place, and also if
the columns are declared, so that data under other names than theirs are refused. -/
def LeavesIdentities (m : Model) (d : Definition) (data : Record) : Prop :=
  d.Spares data Record.key ∨
    (∃ c ∈ d.columns, c.name = Record.key) ∧
      ∀ field, m.schema.admits m.table field = true → ∃ c ∈ d.columns, c.name = field

def SameIdentities (m : Model) (t : Table) (db : Database) : Prop :=
  ∃ rows, db.table? m.table = some { t with rows } ∧ ∃ g : Row → Row,
    rows.Perm (t.rows.map g) ∧
    ∀ row ∈ t.rows, t.definition.cell (g row) Record.key = t.definition.cell row Record.key

theorem sameIdentities_of_follows {u : Session} (regular : s.site.connection.database.Regular)
    (known : s.site.connection.database.table? m.table = some t)
    (follows : s.Follows (Connection.Retains m.table t.definition (· = Record.key)) u) :
    m.SameIdentities t u.site.connection.database := by
  obtain ⟨-, rows, hrows, g, hperm, hg⟩ := follows.connection regular t known rfl
  refine ⟨rows, hrows, g, hperm, fun row hrow => ?_⟩
  exact Definition.cell_eq_of_scalar (f := { definition := t.definition }) rfl
    (Frame.constant?_key _) (hg row hrow Record.key rfl _ rfl)

/-- Whatever comes of an update, of one row or of many, and of an upsert that has a row to change,
all rows of the table have the identities that they had, provided that nothing is set in the
place of the identities under another name. -/
theorem updates_leave_identities (regular : s.site.connection.database.Regular)
    (known : s.site.connection.database.table? m.table = some t) (hb : s.behind = []) (f : Filter)
    (data : Record) (leaves : m.LeavesIdentities t.definition data) :
    m.SameIdentities t (s.run (m.update f data).run).2.site.connection.database ∧
    m.SameIdentities t (s.run (m.updateMany f data).run).2.site.connection.database ∧
    ∀ fresh create, (s.run (m.findUnique { filter := f }).run).1 ≠ .ok none →
      m.SameIdentities t (s.run (m.upsert fresh f create data).run).2.site.connection.database := by
  have htable := regular.tables t (Database.mem_of_table? known)
  have spares (hcheck : m.checkData data = .ok ()) (name : String) (hname : name = Record.key) :
      t.definition.Spares data name := by
    subst hname
    refine leaves.elim id fun ⟨identity, declared⟩ => ?_
    exact Definition.spares_key_of_columns htable.regular identity fun n hn =>
      declared n (Schema.admits_of_checkField (Schema.checkField_of_checkFields hcheck hn))
  have each (job : Job) (assigns : m.Assigns data job) (c : Connection) :
      c.Retains m.table t.definition (· = Record.key) (c.perform job).2 :=
    assigns.retains spares c
  refine ⟨sameIdentities_of_follows regular known ?_, sameIdentities_of_follows regular known ?_,
    fun fresh create found => sameIdentities_of_follows regular known ?_⟩
  · exact follows_update .refl .trans each hb
  · exact follows_updateMany .refl .trans each hb
  · exact follows_upsert .refl .trans each hb fresh found

theorem updates_leave_identities_orders :
    let data : Record := [("status", .text "B")]
    declaredOrders.SameIdentities twoOrders (orderStore.run
        (declaredOrders.update (withStatus "A") data).run).2.site.connection.database ∧
      declaredOrders.SameIdentities twoOrders (orderStore.run
        (declaredOrders.updateMany (withStatus "A") data).run).2.site.connection.database ∧
      declaredOrders.SameIdentities twoOrders (orderStore.run (declaredOrders.upsert "fresh"
        (withStatus "A") [] data).run).2.site.connection.database := by
  intro data
  have found : (orderStore.run (declaredOrders.findUnique { filter := withStatus "A" }).run).1 ≠
      .ok none := by
    rw [findUnique_statusA]
    simp
  obtain ⟨one, many, upserted⟩ := updates_leave_identities keyed_orders.regular keyed_orders.known
    rfl (withStatus "A") data (.inl (by decide))
  exact ⟨one, many, upserted "fresh" [] found⟩

def changeIdentity : Command :=
  .update "orders" [("ID", .text "o9")] (statusIs "A")

theorem execute_changeIdentity :
    orderStore.site.connection.execute changeIdentity = (.ok { count := 1 },
      leftWith [⟨1, [.text "o9", .text "A"]⟩, ⟨2, [.text "o2", .text "B"]⟩]) := by
  let rows : List Row := [⟨1, [.text "o9", .text "A"]⟩, ⟨2, [.text "o2", .text "B"]⟩]
  have hsort : Definition.inOrder rows = rows := List.mergeSort_of_pairwise (by decide)
  have hopen : orderStore.site.connection.execute changeIdentity =
      (.ok { count := 1 }, orderStore.site.connection.written
        { tables := [⟨orderTable, Definition.inOrder rows⟩] } 1) := rfl
  rw [hopen, hsort]
  rfl

/-- Where the columns are not declared, an update may change an identity. -/
theorem updateMany_changes_identity :
    ∃ u, orderStore.run (orderModel.updateMany (withStatus "A") [("ID", .text "o9")]).run =
        (.ok 1, u) ∧
      ¬ orderModel.SameIdentities twoOrders u.site.connection.database := by
  obtain ⟨u, hu, hconnection, -⟩ := @Session.exists_run_perform orderStore orderModel.handle
    (.inr rfl) ⟨rfl, rfl⟩ (.command changeIdentity) (by simp)
  rw [Connection.perform, execute_changeIdentity] at hu hconnection
  refine ⟨u, ?_, ?_⟩
  · have hdata : Record.hasAssignments [("ID", .text "o9")] = true := rfl
    have hchecked : orderModel.checkData [("ID", .text "o9")] = .ok () := rfl
    have hfilter : orderModel.checkFilter (withStatus "A") = .ok () := checkFilter_eq rfl rfl
    have hcs : Filter.conditions (withStatus "A") = .ok (statusIs "A") := rfl
    have hcommand : Command.assignment orderModel.table [("ID", .text "o9")] (statusIs "A") =
        .ok changeIdentity := rfl
    rw [updateMany, if_pos hdata, Session.run_check hfilter, Session.run_check hchecked,
      Session.run_check hcs, Session.run_check hcommand, Session.run_op_map, perform, hu]
    rfl
  · rintro ⟨rows, hrows, g, hperm, hg⟩
    rw [hconnection] at hrows
    cases hrows
    -- The new identity would be that of a row as it was.
    obtain ⟨row, hrow, hnew⟩ := List.mem_map.mp (hperm.mem_iff.mp List.mem_cons_self)
    have hidentity := hg row hrow
    rw [hnew] at hidentity
    have hnone : ∀ row ∈ twoOrders.rows, .text "o9" ≠ twoOrders.definition.cell row Record.key := by
      decide
    exact hnone row hrow hidentity

end Model

end Relata
