import Relata.Proofs.Model.Lookup
import Relata.Proofs.Model.Written

/-! # Writing a single row

An update or a removal of one row locates it by a filter and goes by its identity from then
on. What it writes is that row and nothing else, also where the row no longer meets the
filter afterwards.
-/

namespace Relata

open Text

namespace Table

/-- One row takes the place of another, and nothing else is written. -/
structure Replaces (t : Table) (c d : Connection) (data : Record) (old new : Row) : Prop where
  exchange : c.database.Exchange t [old] [new] d.database
  single : d.changes = 1
  updates : t.definition.Updates data old new

structure Removes (t : Table) (c d : Connection) (old : Row) : Prop where
  exchange : c.database.Exchange t [old] [] d.database
  single : d.changes = 1

structure Adds (t : Table) (c d : Connection) (new : Row) : Prop where
  exchange : c.database.Exchange t [] [new] d.database
  single : d.changes = 1

end Table

def Database.Lacks (db : Database) (t : Table) (id : Value) : Prop :=
  ∀ r ∈ t.rows, (Filter.truth (db.frame t) r (Filter.eq [] Record.key id)).holds = false

namespace Model

variable {m : Model} {s u : Session} {t : Table} {f : Filter}

theorem Finds.eq_new {c : Connection} {old new : Row} {others rows : List Row}
    {found : Option Record} (keyed : m.Keyed c.database t) (hold : old ∈ t.rows)
    (hrows : t.rows.Perm (old :: others)) (hnew : rows.Perm (new :: others))
    (identity : t.definition.cell new Record.key = t.definition.cell old Record.key)
    {d : Connection} (hd : d.database = c.database.setRows m.table rows)
    (finds : m.Finds d
      (Filter.eq [] Record.key (t.definition.cell old Record.key).toValue) found) :
    found = some (t.definition.record new) := by
  have hfound : d.database.table? m.table = some { t with rows } := by
    rw [hd]
    exact Database.table?_setRows keyed.known rows
  refine finds.eq_row (t := { t with rows }) (keyed.rows.present old hold) hfound ?_
  exact keyed.rows.filter_eq rfl hrows identity hnew

/-- A lookup by a filter answers the row, and the filter holds of it. -/
structure Locates (m : Model) (s : Session) (t : Table) (f : Filter) (r : Row) : Prop where
  mem : r ∈ t.rows
  answered : (s.run (m.findUnique { filter := f }).run).1 = .ok (some (t.definition.record r))
  holds : m.Unambiguous f →
    (Filter.truth (s.site.connection.database.frame t) r f).holds = true

/-- A lookup by a filter answers no row, and the filter holds of none. -/
structure LocatesNone (m : Model) (s : Session) (t : Table) (f : Filter) : Prop where
  answered : (s.run (m.findUnique { filter := f }).run).1 = .ok none
  fails : m.Unambiguous f → ∀ r ∈ t.rows,
    (Filter.truth (s.site.connection.database.frame t) r f).holds = false

/-- What an update of one row may come to by way of a connection. -/
inductive Updating (m : Model) (c : Connection) (t : Table) (f : Filter) (data : Record) :
    Option Record → Connection → Prop
  | missed (finds : m.Finds c f none) : Updating m c t f data none c
  | written {old new : Row} {d : Connection} (mem : old ∈ t.rows)
      (finds : m.Finds c f (some (t.definition.record old)))
      (replaces : t.Replaces c d data old new) :
      Updating m c t f data (some (t.definition.record new)) d

inductive Removing (m : Model) (c : Connection) (t : Table) (f : Filter) :
    Option Record → Connection → Prop
  | missed (finds : m.Finds c f none) : Removing m c t f none c
  | removed {old : Row} {d : Connection} (mem : old ∈ t.rows)
      (finds : m.Finds c f (some (t.definition.record old))) (removes : t.Removes c d old) :
      Removing m c t f (some (t.definition.record old)) d

theorem Updating.of_through {c d : Connection} {h : Handle} {data : Record}
    {result : Option Record} (updating : (m.through h).Updating c t f data result d) :
    m.Updating c t f data result d := by
  cases updating with
  | missed finds => exact .missed finds.of_through
  | written mem finds replaces => exact .written mem finds.of_through replaces

theorem Removing.of_through {c d : Connection} {h : Handle} {result : Option Record}
    (removing : (m.through h).Removing c t f result d) : m.Removing c t f result d := by
  cases removing with
  | missed finds => exact .missed finds.of_through
  | removed mem finds removes => exact .removed mem finds.of_through removes

theorem declared_of_checkData {db : Database} {data : Record} (keyed : m.Keyed db t)
    (h : m.checkData data = .ok ()) :
    ∀ name ∈ Entries.names data, ∃ c ∈ t.definition.columns, c.name = name :=
  fun name hname => keyed.declared name
    (Schema.admits_of_checkField (Schema.checkField_of_checkFields h hname))

theorem perform_ok (inside : m.handle.mode = .transaction) (hb : s.behind = []) {k : Command}
    {a : Answer} (hrun : s.run (m.perform k).run = (.ok a, u)) :
    (s.site.connection.execute k).1 = .ok a ∧
      u.site.connection = (s.site.connection.execute k).2 ∧ u.Ready :=
  Session.run_perform_inside_ok inside hb hrun

/-- Behind the gate a command gets the answer of the connection. -/
theorem run_perform_reply (inside : m.handle.mode = .transaction) (ready : s.Ready) {k : Command}
    {a : Answer} (h : (s.site.connection.execute k).1 = .ok a) :
    (s.run (m.perform k).run).1 = .ok a := by
  have hreply : (s.run (m.perform k).run).1 = _ :=
    Session.run_perform_reply (.inl inside) ready.behind ready.isOpen (by simp)
  rw [Connection.perform, h] at hreply
  exact hreply

/-- What a lookup answers can be found behind the gate too, where what was checked for the lookup
need not be checked again. -/
theorem run_hold_of_findUnique {α : Type} (hb : s.behind = []) {found : Option Record}
    (hfound : (s.run (m.findUnique { filter := f }).run).1 = .ok found) (x : Handle → Op α) :
    m.checkFilter f = .ok () ∧ ∃ u : Session, u.Ready ∧ u.site.connection = s.site.connection ∧
      (m.through m.handle.inside).Finds u.site.connection f found ∧
      (s.run (m.handle.hold x).run).1 = (u.run (x m.handle.inside).run).1 := by
  obtain ⟨finds, ⟨reaches, isOpen⟩, -, -⟩ := findUnique_ok hb (Prod.ext hfound rfl)
  obtain ⟨u, hu, hbu, hrun⟩ := Session.run_hold_reaches reaches x
  rw [← hu] at finds isOpen ⊢
  exact ⟨finds.checked, u, ⟨isOpen, hbu.trans hb⟩, rfl, finds.through _, hrun⟩

theorem updateHeld_ok (keyed : m.Keyed s.site.connection.database t)
    (inside : m.handle.mode = .transaction) (hb : s.behind = []) {data : Record}
    (distinct : Entries.Distinct data) (hcheck : m.checkData data = .ok ())
    {result : Option Record} (hrun : s.run (m.updateHeld f data).run = (.ok result, u)) :
    s.site.isOpen = true ∧
      m.Updating s.site.connection t f data result u.site.connection := by
  obtain ⟨found, v, hfind, hrest⟩ := Session.run_op_bind_ok hrun
  obtain ⟨finds, ⟨-, isOpen⟩, hv, -, hbv⟩ := findUnique_ok hb hfind
  refine ⟨isOpen, ?_⟩
  cases found with
  | none =>
    obtain ⟨rfl, rfl⟩ := Session.run_pure_ok hrest
    rw [hv]
    exact .missed finds
  | some record =>
    obtain ⟨old, hold, rfl, -⟩ := keyed.exists_row finds
    have hdeclared := declared_of_checkData keyed hcheck
    simp only [keyed.rows.locator_record hold f] at hrest
    obtain ⟨cs, hcs, hrest⟩ := Session.run_check_ok hrest
    obtain rfl := Filter.conditions_keyed (keyed.rows.present old hold) hcs
    obtain ⟨k, hk, hrest⟩ := Session.run_check_ok hrest
    obtain ⟨entries, hentries, rfl, definite⟩ := Command.assignment_definite hk
    obtain ⟨a, w, hperform, hreread⟩ := Session.run_op_bind_ok hrest
    obtain ⟨hanswer, hw, -, hbw⟩ := perform_ok inside hbv hperform
    rw [hv] at hanswer hw
    have covers := Definition.covers_cells
      (fun name hname => hdeclared name ((List.filter_sublist.map Prod.fst).subset hname))
      (distinct.erase Record.key) hentries
    obtain ⟨new, others, rows, puts, hrows, hnew, hleft⟩ :=
      Connection.execute_update keyed.rows hold definite keyed.known covers hanswer
    have updates := puts.updates keyed.rows.regular keyed.rows.identity hdeclared hentries
    obtain ⟨finds', -, hu, -⟩ := findUnique_ok hbw hreread
    rw [hw, hleft] at finds' hu
    rw [finds'.eq_new keyed hold hrows hnew updates.identity rfl, hu]
    refine .written hold finds ⟨?_, rfl, updates⟩
    exact Database.exchange_setRows keyed.regular.distinct keyed.known hrows hnew

theorem update_ok (keyed : m.Keyed s.site.connection.database t) (hb : s.behind = [])
    {data : Record} (distinct : Entries.Distinct data) {result : Option Record}
    (hrun : s.run (m.update f data).run = (.ok result, u)) :
    s.Reaches m.handle ∧ s.site.isOpen = true ∧
      m.Updating s.site.connection t f data result u.site.connection := by
  rw [update_eq] at hrun
  split at hrun
  · obtain ⟨_, -, hrun⟩ := Session.run_check_ok hrun
    obtain ⟨_, hcheck, hrun⟩ := Session.run_check_ok hrun
    obtain ⟨reaches, v, w, hv, hbv, hheld, hu, -⟩ := Session.run_hold_ok hrun
    rw [← hv] at keyed
    obtain ⟨isOpen, updating⟩ := updateHeld_ok (keyed.through m.handle.inside) rfl
      (hbv.trans hb) distinct hcheck hheld
    rw [hv, ← hu] at updating
    exact ⟨reaches, hv ▸ isOpen, updating.of_through⟩
  · cases hrun

theorem updateHeld_some (inside : m.handle.mode = .transaction) (ready : s.Ready)
    {data found : Record} {next : Option Record} {cs : List Condition} {k : Command} {a : Answer}
    (finds : m.Finds s.site.connection f (some found))
    (hcs : Filter.conditions (found.locator f) = .ok cs)
    (hk : Command.assignment m.table data cs = .ok k)
    (hanswer : (s.site.connection.execute k).1 = .ok a)
    (hnext : m.Finds (s.site.connection.execute k).2 (found.locator f) next) :
    (s.run (m.updateHeld f data).run).1 = .ok next := by
  have hfind := finds.run (.inl inside) ready.behind ready.isOpen
  obtain ⟨-, -, hv, readyv⟩ := findUnique_ok ready.behind (Prod.ext hfind rfl)
  rw [← hv] at hanswer hnext
  have hperform := run_perform_reply inside readyv hanswer
  obtain ⟨-, hw, readyw⟩ := perform_ok inside readyv.behind (Prod.ext hperform rfl)
  rw [← hw] at hnext
  rw [updateHeld, Session.run_op_bind_of_ok hfind]
  simp only [Session.run_check hcs, Session.run_check hk, Session.run_op_bind_of_ok hperform]
  exact hnext.run (.inl inside) readyw.behind readyw.isOpen

/-- Where a lookup answers a row and the store accepts its change, an update answers what the
row is found as afterwards. -/
theorem update_some (hb : s.behind = []) {data found : Record} {next : Option Record}
    {cs : List Condition} {k : Command} {a : Answer}
    (hfound : (s.run (m.findUnique { filter := f }).run).1 = .ok (some found))
    (hdata : data.hasAssignments = true) (hcheck : m.checkData data = .ok ())
    (hcs : Filter.conditions (found.locator f) = .ok cs)
    (hk : Command.assignment m.table data cs = .ok k)
    (hanswer : (s.site.connection.execute k).1 = .ok a)
    (hnext : m.Finds (s.site.connection.execute k).2 (found.locator f) next) :
    (s.run (m.update f data).run).1 = .ok next := by
  obtain ⟨checked, u, ready, hu, finds, hrun⟩ := run_hold_of_findUnique hb hfound fun inner =>
    (m.through inner).updateHeld f data
  rw [update_eq, if_pos hdata, Session.run_check checked, Session.run_check hcheck, hrun]
  rw [← hu] at hanswer hnext
  exact updateHeld_some rfl ready finds hcs hk hanswer (hnext.through _)

theorem update_none (hb : s.behind = []) {data : Record}
    (hnone : (s.run (m.findUnique { filter := f }).run).1 = .ok none)
    (hdata : data.hasAssignments = true) (hcheck : m.checkData data = .ok ()) :
    (s.run (m.update f data).run).1 = .ok none := by
  obtain ⟨checked, u, ready, -, finds, hrun⟩ := run_hold_of_findUnique hb hnone fun inner =>
    (m.through inner).updateHeld f data
  have hfind := finds.run (.inl rfl) ready.behind ready.isOpen
  rw [update_eq, if_pos hdata, Session.run_check checked, Session.run_check hcheck, hrun,
    updateHeld, Session.run_op_bind_of_ok hfind]
  rfl

theorem deleteHeld_ok (keyed : m.Keyed s.site.connection.database t)
    (uncascaded : s.site.connection.database.Uncascaded)
    (inside : m.handle.mode = .transaction) (hb : s.behind = []) {result : Option Record}
    (hrun : s.run (m.deleteHeld f).run = (.ok result, u)) :
    s.site.isOpen = true ∧ m.Removing s.site.connection t f result u.site.connection := by
  obtain ⟨found, v, hfind, hrest⟩ := Session.run_op_bind_ok hrun
  obtain ⟨finds, ⟨-, isOpen⟩, hv, -, hbv⟩ := findUnique_ok hb hfind
  refine ⟨isOpen, ?_⟩
  cases found with
  | none =>
    obtain ⟨rfl, rfl⟩ := Session.run_pure_ok hrest
    rw [hv]
    exact .missed finds
  | some record =>
    obtain ⟨old, hold, rfl, -⟩ := keyed.exists_row finds
    simp only [keyed.rows.locator_record hold f] at hrest
    obtain ⟨cs, hcs, hrest⟩ := Session.run_check_ok hrest
    obtain rfl := Filter.conditions_keyed (keyed.rows.present old hold) hcs
    obtain ⟨k, hk, hrest⟩ := Session.run_check_ok hrest
    obtain ⟨table, htable, rfl⟩ := Command.removal_ok hk
    obtain ⟨rfl, plain⟩ := Filter.checkedName_eq_ok htable
    obtain ⟨a, w, hperform, hdone⟩ := Session.run_op_bind_ok hrest
    obtain ⟨rfl, rfl⟩ := Session.run_pure_ok hdone
    obtain ⟨hanswer, hw, -⟩ := perform_ok inside hbv hperform
    rw [hv] at hanswer hw
    obtain ⟨others, rows, hrows, hrest, hleft⟩ :=
      Connection.execute_delete keyed.rows hold plain keyed.known uncascaded hanswer
    rw [hw, hleft]
    refine .removed hold finds ⟨?_, rfl⟩
    exact Database.exchange_setRows keyed.regular.distinct keyed.known hrows hrest

theorem delete_ok (keyed : m.Keyed s.site.connection.database t)
    (uncascaded : s.site.connection.database.Uncascaded) (hb : s.behind = [])
    {result : Option Record} (hrun : s.run (m.delete f).run = (.ok result, u)) :
    s.Reaches m.handle ∧ s.site.isOpen = true ∧
      m.Removing s.site.connection t f result u.site.connection := by
  rw [delete_eq] at hrun
  obtain ⟨_, -, hrun⟩ := Session.run_check_ok hrun
  obtain ⟨reaches, v, w, hv, hbv, hheld, hu, -⟩ := Session.run_hold_ok hrun
  rw [← hv] at keyed uncascaded
  obtain ⟨isOpen, removing⟩ := deleteHeld_ok (keyed.through m.handle.inside) uncascaded rfl
    (hbv.trans hb) hheld
  rw [hv, ← hu] at removing
  exact ⟨reaches, hv ▸ isOpen, removing.of_through⟩

theorem deleteHeld_some (inside : m.handle.mode = .transaction) (ready : s.Ready)
    {found : Record} {cs : List Condition} {k : Command} {a : Answer}
    (finds : m.Finds s.site.connection f (some found))
    (hcs : Filter.conditions (found.locator f) = .ok cs)
    (hk : Command.removal m.table cs = .ok k)
    (hanswer : (s.site.connection.execute k).1 = .ok a) :
    (s.run (m.deleteHeld f).run).1 = .ok (some found) := by
  have hfind := finds.run (.inl inside) ready.behind ready.isOpen
  obtain ⟨-, -, hv, readyv⟩ := findUnique_ok ready.behind (Prod.ext hfind rfl)
  rw [← hv] at hanswer
  rw [deleteHeld, Session.run_op_bind_of_ok hfind]
  simp only [Session.run_check hcs, Session.run_check hk,
    Session.run_op_bind_of_ok (run_perform_reply inside readyv hanswer)]
  rfl

/-- Where a lookup answers a row and the store accepts its removal, a removal answers it. -/
theorem delete_some (hb : s.behind = []) {found : Record} {cs : List Condition} {k : Command}
    {a : Answer} (hfound : (s.run (m.findUnique { filter := f }).run).1 = .ok (some found))
    (hcs : Filter.conditions (found.locator f) = .ok cs)
    (hk : Command.removal m.table cs = .ok k)
    (hanswer : (s.site.connection.execute k).1 = .ok a) :
    (s.run (m.delete f).run).1 = .ok (some found) := by
  obtain ⟨checked, u, ready, hu, finds, hrun⟩ := run_hold_of_findUnique hb hfound fun inner =>
    (m.through inner).deleteHeld f
  rw [delete_eq, Session.run_check checked, hrun]
  rw [← hu] at hanswer
  exact deleteHeld_some rfl ready finds hcs hk hanswer

theorem delete_none (hb : s.behind = [])
    (hnone : (s.run (m.findUnique { filter := f }).run).1 = .ok none) :
    (s.run (m.delete f).run).1 = .ok none := by
  obtain ⟨checked, u, ready, -, finds, hrun⟩ := run_hold_of_findUnique hb hnone fun inner =>
    (m.through inner).deleteHeld f
  have hfind := finds.run (.inl rfl) ready.behind ready.isOpen
  rw [delete_eq, Session.run_check checked, hrun, deleteHeld, Session.run_op_bind_of_ok hfind]
  rfl

def createAs (m : Model) (id : Value) (row : Record) : Op Record := do
  m.checkData row
  let command ← Command.insertion m.table row
  let _ ← m.perform command
  match ← m.findUnique (.byKey id) with
  | some row => return row
  | none => throw (m.lostRow id)

theorem create_eq (m : Model) (fresh : String) (data : Record) :
    m.create fresh data = m.createAs (data.identified fresh).1 (data.identified fresh).2 :=
  rfl

/-- A row was inserted by way of a connection: the cells of some data, and the number that the
store gives it. -/
structure Inserts (m : Model) (c d : Connection) (t : Table) (data : Record)
    (cells : List (String × Scalar)) (number : Int) : Prop where
  checked : m.checkData data = .ok ()
  given : Command.cells data = .ok cells
  definite : (Command.insert m.table cells).Definite
  executed : ∃ a, c.execute (.insert m.table cells) = (.ok a, d)
  held : ∀ e ∈ cells, t.definition.holds e.1 = true
  numbered : t.definition.newNumber t.rows cells = .ok number
  left : d = c.written (c.database.setRows m.table (Definition.place t.rows
    (t.definition.newRow c.database.now number cells))) 1 (some number)

theorem Inserts.adds {c d : Connection} {data : Record} {cells : List (String × Scalar)}
    {number : Int} (inserts : m.Inserts c d t data cells number)
    (known : c.database.table? m.table = some t) (distinct : c.database.Distinct) :
    t.Adds c d (t.definition.newRow c.database.now number cells) := by
  rw [inserts.left]
  exact ⟨Database.exchange_setRows distinct known (.refl _) (Database.perm_place _ _), rfl⟩

theorem create_inserts (known : s.site.connection.database.table? m.table = some t)
    (inside : m.handle.mode = .transaction) (hb : s.behind = []) {fresh : String}
    {data record : Record} (hrun : s.run (m.create fresh data).run = (.ok record, u)) :
    ∃ cells number,
      m.Inserts s.site.connection u.site.connection t (data.identified fresh).2 cells number ∧
      m.Finds u.site.connection (Filter.eq [] Record.key (data.identified fresh).1)
        (some record) := by
  rw [create_eq] at hrun
  obtain ⟨_, hcheck, hrest⟩ := Session.run_check_ok hrun
  obtain ⟨k, hk, hrest⟩ := Session.run_check_ok hrest
  obtain ⟨entries, hentries, rfl, definite⟩ :=
    Command.insertion_definite (Entries.get?_identified fresh data) hk
  obtain ⟨a, v, hperform, hrest⟩ := Session.run_op_bind_ok hrest
  obtain ⟨hanswer, hv, -, hbv⟩ := perform_ok inside hb hperform
  obtain ⟨number, held, hnumber, hleft⟩ := Connection.execute_insert definite known hanswer
  obtain ⟨found, w, hfind, hdone⟩ := Session.run_op_bind_ok hrest
  obtain ⟨finds, -, hw, -⟩ := findUnique_ok hbv hfind
  cases found with
  | none => cases hdone
  | some row =>
    obtain ⟨rfl, rfl⟩ := Session.run_pure_ok hdone
    rw [hw]
    exact ⟨entries, number, ⟨hcheck, hentries, definite, ⟨a, Prod.ext hanswer hv.symm⟩, held,
      hnumber, hv.trans hleft⟩, finds⟩

/-- Where rows are told apart by their identities, the one that is read again is the one that was
added, unless its identity was there before. -/
theorem create_ok (keyed : m.Keyed s.site.connection.database t)
    (inside : m.handle.mode = .transaction) (hb : s.behind = []) {fresh : String} {data : Record}
    (distinct : Entries.Distinct (data.identified fresh).2) {record : Record}
    (hrun : s.run (m.create fresh data).run = (.ok record, u)) :
    ∃ new, t.Adds s.site.connection u.site.connection new ∧
      t.definition.Fills s.site.connection.database.now (data.identified fresh).2 new ∧
      (s.site.connection.database.Lacks t (data.identified fresh).1 →
        record = t.definition.record new) := by
  obtain ⟨entries, number, inserts, finds⟩ := create_inserts keyed.known inside hb hrun
  refine ⟨_, inserts.adds keyed.known keyed.regular.distinct, ?_, fun lacks => ?_⟩
  · exact Definition.fills_newRow keyed.rows.regular (declared_of_checkData keyed inserts.checked)
      distinct inserts.given inserts.numbered _
  · rw [inserts.left] at finds
    obtain ⟨r, hr, rfl, hholds⟩ := finds.exists_key (Record.isNull_identified fresh data)
      (Database.table?_setRows keyed.known _)
    rcases List.mem_cons.mp ((Database.perm_place _ _).mem_iff.mp hr) with rfl | hr
    · rfl
    · cases (lacks r hr).symm.trans hholds

theorem create_some (inside : m.handle.mode = .transaction) (ready : s.Ready) {fresh : String}
    {data record : Record} {k : Command} {a : Answer}
    (hcheck : m.checkData (data.identified fresh).2 = .ok ())
    (hk : Command.insertion m.table (data.identified fresh).2 = .ok k)
    (hanswer : (s.site.connection.execute k).1 = .ok a)
    (hnext : m.Finds (s.site.connection.execute k).2
      (Filter.eq [] Record.key (data.identified fresh).1) (some record)) :
    (s.run (m.create fresh data).run).1 = .ok record := by
  have hperform := run_perform_reply inside ready hanswer
  obtain ⟨-, hv, readyv⟩ := perform_ok inside ready.behind (Prod.ext hperform rfl)
  rw [← hv] at hnext
  have hfind := hnext.run (.inl inside) readyv.behind readyv.isOpen
  rw [create_eq, createAs, Session.run_check hcheck, Session.run_check hk,
    Session.run_op_bind_of_ok hperform, Find.byKey, Session.run_op_bind_of_ok hfind]
  rfl

/-- Where a lookup answers no row and the store accepts a new one, an upsert answers it. -/
theorem upsert_none (hb : s.behind = []) {fresh : String} {create update record : Record}
    {k : Command} {a : Answer}
    (hnone : (s.run (m.findUnique { filter := f }).run).1 = .ok none)
    (hcheck : m.checkData
      (Record.identified fresh (Entries.extend create f.equalities)).2 = .ok ())
    (hk : Command.insertion m.table
      (Record.identified fresh (Entries.extend create f.equalities)).2 = .ok k)
    (hanswer : (s.site.connection.execute k).1 = .ok a)
    (hnext : m.Finds (s.site.connection.execute k).2 (Filter.eq [] Record.key
      (Record.identified fresh (Entries.extend create f.equalities)).1) (some record)) :
    (s.run (m.upsert fresh f create update).run).1 = .ok record := by
  obtain ⟨-, u, ready, hu, finds, hrun⟩ := run_hold_of_findUnique hb hnone fun inner =>
    (m.through inner).upsertHeld fresh f create update
  have hfind := finds.run (.inl rfl) ready.behind ready.isOpen
  obtain ⟨-, -, hv, ready⟩ := findUnique_ok ready.behind (Prod.ext hfind rfl)
  rw [← hu, ← hv] at hanswer hnext
  rw [upsert_eq, hrun, upsertHeld, Session.run_op_bind_of_ok hfind]
  exact create_some rfl ready hcheck hk hanswer (hnext.through _)

theorem upsert_kept (hb : s.behind = []) {fresh : String} {create update found : Record}
    (hfound : (s.run (m.findUnique { filter := f }).run).1 = .ok (some found))
    (nothing : update.hasAssignments = false) :
    (s.run (m.upsert fresh f create update).run).1 = .ok found := by
  obtain ⟨-, u, ready, -, finds, hrun⟩ := run_hold_of_findUnique hb hfound fun inner =>
    (m.through inner).upsertHeld fresh f create update
  have hfind := finds.run (.inl rfl) ready.behind ready.isOpen
  rw [upsert_eq, hrun, upsertHeld, Session.run_op_bind_of_ok hfind]
  simp only [nothing, Bool.false_eq_true, if_false]
  rfl

/-- What an upsert may come to by way of a connection. -/
inductive Upserting (m : Model) (c : Connection) (t : Table) (fresh : String) (f : Filter)
    (create update : Record) : Record → Connection → Prop
  | kept {old : Row} (mem : old ∈ t.rows) (finds : m.Finds c f (some (t.definition.record old)))
      (nothing : update.hasAssignments = false) :
      Upserting m c t fresh f create update (t.definition.record old) c
  | written {old new : Row} {d : Connection} (mem : old ∈ t.rows)
      (finds : m.Finds c f (some (t.definition.record old)))
      (something : update.hasAssignments = true) (replaces : t.Replaces c d update old new) :
      Upserting m c t fresh f create update (t.definition.record new) d
  | added {new : Row} {record : Record} {d : Connection} (finds : m.Finds c f none)
      (adds : t.Adds c d new)
      (seeds : t.definition.Seeds c.database.now fresh f create new)
      (reread : c.database.Lacks t
        (Record.identified fresh (Entries.extend create f.equalities)).1 →
          record = t.definition.record new) :
      Upserting m c t fresh f create update record d

theorem Upserting.of_through {c d : Connection} {h : Handle} {fresh : String}
    {create update record : Record}
    (upserting : (m.through h).Upserting c t fresh f create update record d) :
    m.Upserting c t fresh f create update record d := by
  cases upserting with
  | kept mem finds nothing => exact .kept mem finds.of_through nothing
  | written mem finds something replaces =>
    exact .written mem finds.of_through something replaces
  | added finds adds seeds reread => exact .added finds.of_through adds seeds reread

theorem Updating.of_locator {c d : Connection} (keyed : m.Keyed c.database t) {old : Row}
    (hold : old ∈ t.rows) {data : Record} {result : Option Record}
    (updating : m.Updating c t ((t.definition.record old).locator f) data result d) :
    ∃ new, t.Replaces c d data old new ∧ result = some (t.definition.record new) := by
  have hfound {found : Option Record}
      (finds : m.Finds c ((t.definition.record old).locator f) found) :
      found = some (t.definition.record old) := by
    rw [keyed.rows.locator_record hold f] at finds
    exact finds.eq_row (keyed.rows.present old hold) keyed.known (keyed.rows.filter_self rfl hold)
  cases updating with
  | missed finds => cases hfound finds
  | @written old' new _ mem finds replaces =>
    cases keyed.rows.eq_of_record mem hold (Option.some.inj (hfound finds))
    exact ⟨new, replaces, rfl⟩

theorem upsertHeld_ok (keyed : m.Keyed s.site.connection.database t)
    (inside : m.handle.mode = .transaction) (hb : s.behind = []) {fresh : String}
    {create update record : Record} (hcreate : Entries.Distinct create)
    (hupdate : Entries.Distinct update)
    (hrun : s.run (m.upsertHeld fresh f create update).run = (.ok record, u)) :
    s.site.isOpen = true ∧
      m.Upserting s.site.connection t fresh f create update record u.site.connection := by
  obtain ⟨found, v, hfind, hrest⟩ := Session.run_op_bind_ok hrun
  obtain ⟨finds, ⟨-, isOpen⟩, hv, -, hbv⟩ := findUnique_ok hb hfind
  refine ⟨isOpen, ?_⟩
  rw [← hv] at keyed finds ⊢
  cases found with
  | none =>
    have distinct := (hcreate.extend f.equalities).identified fresh
    obtain ⟨new, adds, fills, reread⟩ := create_ok keyed inside hbv distinct hrest
    exact .added finds adds fills.seeds reread
  | some row =>
    obtain ⟨old, hold, rfl, -⟩ := keyed.exists_row finds
    by_cases hdata : update.hasAssignments = true
    · simp only [if_pos hdata] at hrest
      obtain ⟨result, w, hchange, hdone⟩ := Session.run_op_bind_ok hrest
      obtain ⟨rfl, rfl⟩ := Session.run_pure_ok hdone
      obtain ⟨-, -, updating⟩ := update_ok keyed hbv hupdate hchange
      obtain ⟨new, replaces, rfl⟩ := updating.of_locator keyed hold
      exact .written hold finds hdata replaces
    · simp only [if_neg hdata] at hrest
      obtain ⟨rfl, rfl⟩ := Session.run_pure_ok hrest
      exact .kept hold finds (Bool.not_eq_true _ ▸ hdata)

theorem upsert_ok (keyed : m.Keyed s.site.connection.database t) (hb : s.behind = [])
    {fresh : String} {create update record : Record} (hcreate : Entries.Distinct create)
    (hupdate : Entries.Distinct update)
    (hrun : s.run (m.upsert fresh f create update).run = (.ok record, u)) :
    s.Reaches m.handle ∧ s.site.isOpen = true ∧
      m.Upserting s.site.connection t fresh f create update record u.site.connection := by
  rw [upsert_eq] at hrun
  obtain ⟨reaches, v, w, hv, hbv, hheld, hu, -⟩ := Session.run_hold_ok hrun
  rw [← hv] at keyed
  obtain ⟨isOpen, upserting⟩ := upsertHeld_ok (keyed.through m.handle.inside) rfl
    (hbv.trans hb) hcreate hupdate hheld
  rw [hv, ← hu] at upserting
  exact ⟨reaches, hv ▸ isOpen, upserting.of_through⟩

section

variable (keyed : m.Keyed s.site.connection.database t) (reaches : s.Reaches m.handle)
  (hb : s.behind = []) (isOpen : s.site.isOpen = true)

include keyed reaches hb isOpen

theorem Finds.locates {old : Row} (hold : old ∈ t.rows)
    (finds : m.Finds s.site.connection f (some (t.definition.record old))) :
    m.Locates s t f old := by
  refine ⟨hold, finds.run reaches hb isOpen, fun names => ?_⟩
  obtain ⟨r, hr, hrecord, hholds⟩ := keyed.exists_row finds
  rw [keyed.rows.eq_of_record hold hr hrecord]
  exact hholds names

theorem Finds.locatesNone (finds : m.Finds s.site.connection f none) : m.LocatesNone s t f :=
  ⟨finds.run reaches hb isOpen, fun names _ hr => keyed.holds_none finds names hr⟩

end

def declaredOrders : Model :=
  { orderModel with schema := { tables := [("orders", ["id", "status"])] } }

def twoOrders : Table :=
  ⟨orderTable, [⟨1, [.text "o1", .text "A"]⟩, ⟨2, [.text "o2", .text "B"]⟩]⟩

def orderStore : Session :=
  .ofDatabase { tables := [twoOrders] }

def withStatus (status : String) : Filter :=
  Filter.eq [] "status" (.text status)

theorem regular_orderTable : orderTable.Regular where
  distinct := by decide
  integers := by decide
  defaults := List.forall_mem_cons.mpr ⟨fun _ => rfl, List.forall_mem_singleton.mpr fun _ => rfl⟩

theorem keyed_orders : declaredOrders.Keyed orderStore.site.connection.database twoOrders where
  regular :=
    { distinct := List.pairwise_singleton ..
      tables := List.forall_mem_singleton.mpr
        { regular := regular_orderTable
          fits := by
            refine List.forall_mem_cons.mpr ⟨⟨rfl, by decide, by decide⟩, ?_⟩
            exact List.forall_mem_singleton.mpr ⟨rfl, by decide, by decide⟩ } }
  known := rfl
  identified :=
    { identity := ⟨_, List.mem_cons_self, rfl⟩
      present := by decide
      apart := by decide }
  declared := by
    intro field h
    have hfield : field ∈ ["id", "status"] := List.contains_iff_mem.mp h
    simp only [List.mem_cons, List.not_mem_nil, or_false] at hfield
    rcases hfield with rfl | rfl
    · exact ⟨_, List.mem_cons_self, rfl⟩
    · exact ⟨_, List.mem_cons_of_mem _ List.mem_cons_self, rfl⟩

theorem uncascaded_orders : orderStore.site.connection.database.Uncascaded := by
  intro t ht r hr
  cases List.mem_singleton.mp ht
  cases hr

def statusIs (status : String) : List Condition :=
  [.compare "status" .equal (.text status)]

theorem findUnique_status {status : String} {found : Option Row} {a : Answer}
    (h : (orderStore.site.connection.execute
      (.query .everything "orders" (statusIs status) [] { take := some 1 })).1 = .ok a)
    (hfilter : twoOrders.rows.filter (Condition.selects
      (orderStore.site.connection.database.frame twoOrders) (statusIs status)) = found.toList) :
    (orderStore.run (declaredOrders.findUnique { filter := withStatus status }).run).1 =
      .ok (found.map twoOrders.definition.record) := by
  have checked : declaredOrders.checkFilter (withStatus status) = .ok () := checkFilter_eq rfl rfl
  have names : ∀ name ∈ (Command.query .everything "orders" (statusIs status) []
      { take := some 1 }).names, Sql.isKeyword name.toList = false :=
    show ∀ name ∈ ["orders", "status"], Sql.isKeyword name.toList = false by decide
  have finds := Finds.of_filter checked (isPlainName_iff.mp rfl) rfl keyed_orders.known names h
    hfilter
  exact finds.run (.inr rfl) rfl rfl

def firstOrder : Row :=
  ⟨1, [.text "o1", .text "A"]⟩

theorem findUnique_statusA :
    (orderStore.run (declaredOrders.findUnique { filter := withStatus "A" }).run).1 =
      .ok (some (twoOrders.definition.record firstOrder)) := by
  obtain ⟨a, ha⟩ : ∃ a, (orderStore.site.connection.execute
      (.query .everything "orders" (statusIs "A") [] { take := some 1 })).1 = .ok a := ⟨_, rfl⟩
  exact @findUnique_status "A" (some firstOrder) a ha rfl

theorem findUnique_statusC :
    (orderStore.run (declaredOrders.findUnique { filter := withStatus "C" }).run).1 =
      .ok none := by
  obtain ⟨a, ha⟩ : ∃ a, (orderStore.site.connection.execute
      (.query .everything "orders" (statusIs "C") [] { take := some 1 })).1 = .ok a := ⟨_, rfl⟩
  exact @findUnique_status "C" none a ha rfl

theorem finds_identity {c : Connection} {id : String} {a : Answer}
    (h : (c.execute (.query .everything "orders" (Condition.keyed (.text id)) []
      { take := some 1 })).1 = .ok a) :
    declaredOrders.Finds c (Filter.eq [] Record.key (.text id)) a.rows.head? :=
  ⟨checkFilter_key rfl, isPlainName_iff.mp rfl, _, a, rfl, h, rfl⟩

def leftWith (rows : List Row) (lastRow : Int := 0) : Connection :=
  { database := { tables := [⟨orderTable, rows⟩] }, changes := 1, total := 1, lastRow }

def changeStatus : Command :=
  .update "orders" [("status", .text "B")] (Condition.keyed (.text "o1"))

def changedOrders : List Row :=
  [⟨1, [.text "o1", .text "B"]⟩, ⟨2, [.text "o2", .text "B"]⟩]

theorem execute_changeStatus :
    orderStore.site.connection.execute changeStatus =
      (.ok { count := 1 }, leftWith changedOrders) := by
  have hsort : Definition.inOrder changedOrders = changedOrders :=
    List.mergeSort_of_pairwise (by decide)
  have hopen : orderStore.site.connection.execute changeStatus =
      (.ok { count := 1 }, orderStore.site.connection.written
        { tables := [⟨orderTable, Definition.inOrder changedOrders⟩] } 1) := rfl
  rw [hopen, hsort]
  rfl

theorem run_update_orders :
    ∃ next, (orderStore.run
      (declaredOrders.update (withStatus "A") [("status", .text "B")]).run).1 = .ok next := by
  have hcs : Filter.conditions ((twoOrders.definition.record firstOrder).locator (withStatus "A")) =
      .ok (Condition.keyed (.text "o1")) := rfl
  have hk : Command.assignment "orders" [("status", .text "B")] (Condition.keyed (.text "o1")) =
      .ok changeStatus := rfl
  have hanswer : (orderStore.site.connection.execute changeStatus).1 = .ok { count := 1 } :=
    congrArg Prod.fst execute_changeStatus
  have hleft : (orderStore.site.connection.execute changeStatus).2 = leftWith changedOrders :=
    congrArg Prod.snd execute_changeStatus
  obtain ⟨a, ha⟩ : ∃ a, ((leftWith changedOrders).execute (.query .everything "orders"
      (Condition.keyed (.text "o1")) [] { take := some 1 })).1 = .ok a := ⟨_, rfl⟩
  rw [← hleft] at ha
  exact ⟨_, update_some rfl findUnique_statusA rfl rfl hcs hk hanswer (finds_identity ha)⟩

theorem run_delete_orders :
    ∃ next, (orderStore.run (declaredOrders.delete (withStatus "A")).run).1 = .ok next :=
  ⟨_, delete_some rfl findUnique_statusA rfl rfl rfl⟩

def addOrder : Command :=
  .insert "orders" [("id", .text "o3"), ("status", .text "C")]

def thirdOrder : Row :=
  ⟨3, [.text "o3", .text "C"]⟩

theorem execute_addOrder :
    orderStore.site.connection.execute addOrder =
      (.ok { count := 1 }, leftWith (twoOrders.rows ++ [thirdOrder]) 3) :=
  rfl

theorem run_upsert_added {create data : Record} {id : String} {cells : List (String × Scalar)}
    {row : Row} {a : Answer} (hm : m.table = "orders")
    (missed : (orderStore.run (m.findUnique { filter := f }).run).1 = .ok none)
    (hdata : Record.identified "fresh" (Entries.extend create f.equalities) = (.text id, data))
    (hcheck : m.checkData data = .ok ())
    (hkey : m.checkFilter (Filter.eq [] Record.key (.text id)) = .ok ())
    (hk : Command.insertion "orders" data = .ok (.insert "orders" cells))
    (hexecuted : orderStore.site.connection.execute (.insert "orders" cells) =
      (.ok { count := 1 }, leftWith (twoOrders.rows ++ [row]) row.number))
    (hanswer : ((leftWith (twoOrders.rows ++ [row]) row.number).execute (.query .everything "orders"
      (Condition.keyed (.text id)) [] { take := some 1 })).1 = .ok a)
    (hone : (twoOrders.rows ++ [row]).filter (Condition.selects { definition := orderTable }
      (Condition.keyed (.text id))) = [row]) :
    (orderStore.run (m.upsert "fresh" f create []).run).1 = .ok (orderTable.record row) := by
  have named : PlainName m.table.toList := by
    rw [hm]
    exact isPlainName_iff.mp rfl
  have hrows : a.rows = [orderTable.record row] := Connection.execute_row
    (t := ⟨orderTable, twoOrders.rows ++ [row]⟩) (isPlainName_iff.mp rfl) rfl hone hanswer
  have hleft : (orderStore.site.connection.execute (.insert "orders" cells)).2 =
      leftWith (twoOrders.rows ++ [row]) row.number := congrArg Prod.snd hexecuted
  rw [← hleft] at hanswer
  refine upsert_none rfl missed (k := .insert "orders" cells) (a := { count := 1 }) ?_ ?_ ?_ ?_
  · rwa [hdata]
  · rwa [hdata, hm]
  · exact congrArg Prod.fst hexecuted
  · rw [hdata]
    refine ⟨hkey, named, Condition.keyed (.text id), a, rfl, ?_, ?_⟩
    · rwa [hm]
    · rw [hrows]
      rfl

theorem run_upsert_orders (create : Record)
    (hdata : Record.identified "fresh" (Entries.extend create (withStatus "C").equalities) =
      (.text "o3", [("id", .text "o3"), ("status", .text "C")])) :
    ∃ record, (orderStore.run (declaredOrders.upsert "fresh" (withStatus "C") create []).run).1 =
      .ok record := by
  obtain ⟨a, ha⟩ : ∃ a, ((leftWith (twoOrders.rows ++ [thirdOrder]) 3).execute (.query .everything
      "orders" (Condition.keyed (.text "o3")) [] { take := some 1 })).1 = .ok a := ⟨_, rfl⟩
  exact ⟨_, run_upsert_added rfl findUnique_statusC hdata rfl (checkFilter_key rfl) rfl
    execute_addOrder ha rfl⟩

/-- A write to a single row touches the row that a lookup answers, and no other row of any
table. Where a lookup answers none, an update and a removal answer none and touch nothing, and
an upsert adds one row. -/
theorem touches_located (keyed : m.Keyed s.site.connection.database t) (hb : s.behind = [])
    (f : Filter) :
    (∀ data : Record, Entries.Distinct data →
      (∀ result u, s.run (m.update f data).run = (.ok result, u) →
        (m.LocatesNone s t f ∧ result = none ∧ u.site.connection = s.site.connection) ∨
        ∃ old new, m.Locates s t f old ∧
          t.Replaces s.site.connection u.site.connection data old new ∧
          result = some (t.definition.record new)) ∧
      (m.LocatesNone s t f → data.hasAssignments = true → m.checkData data = .ok () →
        (s.run (m.update f data).run).1 = .ok none)) ∧
    (s.site.connection.database.Uncascaded →
      (∀ result u, s.run (m.delete f).run = (.ok result, u) →
        (m.LocatesNone s t f ∧ result = none ∧ u.site.connection = s.site.connection) ∨
        ∃ old, m.Locates s t f old ∧ t.Removes s.site.connection u.site.connection old ∧
          result = some (t.definition.record old)) ∧
      (m.LocatesNone s t f → (s.run (m.delete f).run).1 = .ok none)) ∧
    (∀ (fresh : String) (create update : Record), Entries.Distinct create →
      Entries.Distinct update →
      (∀ record u, s.run (m.upsert fresh f create update).run = (.ok record, u) →
        (∃ old, m.Locates s t f old ∧
          (update.hasAssignments = false ∧ record = t.definition.record old ∧
              u.site.connection = s.site.connection ∨
            update.hasAssignments = true ∧ ∃ new,
              t.Replaces s.site.connection u.site.connection update old new ∧
              record = t.definition.record new)) ∨
        m.LocatesNone s t f ∧ ∃ new, t.Adds s.site.connection u.site.connection new ∧
          t.definition.Seeds s.site.connection.database.now fresh f create new ∧
          (s.site.connection.database.Lacks t
            (Record.identified fresh (Entries.extend create f.equalities)).1 →
              record = t.definition.record new)) ∧
      (∀ old, m.Locates s t f old → update.hasAssignments = false →
        (s.run (m.upsert fresh f create update).run).1 = .ok (t.definition.record old))) := by
  refine ⟨fun data distinct => ⟨fun result u hrun => ?_, fun none hdata hcheck =>
    update_none hb none.answered hdata hcheck⟩, fun uncascaded => ⟨fun result u hrun => ?_,
    fun none => delete_none hb none.answered⟩,
    fun fresh create update hcreate hupdate => ⟨fun record u hrun => ?_, fun old located =>
    upsert_kept hb located.answered⟩⟩
  · obtain ⟨reaches, isOpen, updating⟩ := update_ok keyed hb distinct hrun
    generalize u.site.connection = d at updating
    cases updating with
    | missed finds => exact .inl ⟨finds.locatesNone keyed reaches hb isOpen, rfl, rfl⟩
    | written mem finds replaces =>
      exact .inr ⟨_, _, finds.locates keyed reaches hb isOpen mem, replaces, rfl⟩
  · obtain ⟨reaches, isOpen, removing⟩ := delete_ok keyed uncascaded hb hrun
    generalize u.site.connection = d at removing
    cases removing with
    | missed finds => exact .inl ⟨finds.locatesNone keyed reaches hb isOpen, rfl, rfl⟩
    | removed mem finds removes =>
      exact .inr ⟨_, finds.locates keyed reaches hb isOpen mem, removes, rfl⟩
  · obtain ⟨reaches, isOpen, upserting⟩ := upsert_ok keyed hb hcreate hupdate hrun
    generalize u.site.connection = d at upserting
    cases upserting with
    | kept mem finds nothing =>
      exact .inl ⟨_, finds.locates keyed reaches hb isOpen mem, .inl ⟨nothing, rfl, rfl⟩⟩
    | written mem finds something replaces =>
      exact .inl ⟨_, finds.locates keyed reaches hb isOpen mem,
        .inr ⟨something, _, replaces, rfl⟩⟩
    | added finds adds seeds reread =>
      exact .inr ⟨finds.locatesNone keyed reaches hb isOpen, _, adds, seeds, reread⟩

theorem touches_located_orders :
    (∃ result u, orderStore.run
        (declaredOrders.update (withStatus "A") [("status", .text "B")]).run = (.ok result, u) ∧
      ∃ old new, declaredOrders.Locates orderStore twoOrders (withStatus "A") old ∧
        twoOrders.Replaces orderStore.site.connection u.site.connection
          [("status", .text "B")] old new ∧
        result = some (twoOrders.definition.record new)) ∧
    (∃ result u, orderStore.run (declaredOrders.delete (withStatus "A")).run = (.ok result, u) ∧
      ∃ old, declaredOrders.Locates orderStore twoOrders (withStatus "A") old ∧
        twoOrders.Removes orderStore.site.connection u.site.connection old ∧
        result = some (twoOrders.definition.record old)) ∧
    (∃ record u, orderStore.run (declaredOrders.upsert "fresh" (withStatus "C")
        [("id", .text "o3")] []).run = (.ok record, u) ∧
      ∃ new, twoOrders.Adds orderStore.site.connection u.site.connection new ∧
        orderTable.Seeds "" "fresh" (withStatus "C") [("id", .text "o3")] new ∧
        record = orderTable.record new) ∧
    (∃ old, declaredOrders.Locates orderStore twoOrders (withStatus "A") old ∧
      (orderStore.run (declaredOrders.upsert "fresh" (withStatus "A")
        [("id", .text "o3")] []).run).1 = .ok (twoOrders.definition.record old)) ∧
    (orderStore.run (declaredOrders.update (withStatus "C") [("status", .text "B")]).run).1 =
      .ok none ∧
    (orderStore.run (declaredOrders.delete (withStatus "C")).run).1 = .ok none := by
  have single (name : String) (v : Value) : Entries.Distinct [(name, v)] := by
    simp [Entries.Distinct, Entries.names]
  obtain ⟨updateA, deleteA, upsertA⟩ := touches_located keyed_orders rfl (withStatus "A")
  obtain ⟨updateC, deleteC, upsertC⟩ := touches_located keyed_orders rfl (withStatus "C")
  obtain ⟨changed, hchanged⟩ := run_update_orders
  obtain ⟨removed, hremoved⟩ := run_delete_orders
  obtain ⟨added, hadded⟩ := run_upsert_orders [("id", .text "o3")] rfl
  -- A row was found for one status, and none for the other.
  have hA : ¬ declaredOrders.LocatesNone orderStore twoOrders (withStatus "A") := fun none => by
    cases none.answered.symm.trans findUnique_statusA
  have hC (old : Row) : ¬ declaredOrders.Locates orderStore twoOrders (withStatus "C") old :=
    fun found => by cases found.answered.symm.trans findUnique_statusC
  obtain ⟨none, new, adds, seeds, reread⟩ :=
    ((upsertC "fresh" _ [] (single _ _) List.nodup_nil).1 added _
      (Prod.ext hadded rfl)).resolve_left fun h => h.elim fun old hold => hC old hold.1
  have lacks : orderStore.site.connection.database.Lacks twoOrders (.text "o3") := by
    refine List.forall_mem_cons.mpr ⟨rfl, ?_⟩
    exact List.forall_mem_singleton.mpr rfl
  obtain ⟨old, located, removes, hresult⟩ :=
    ((deleteA uncascaded_orders).1 removed _ (Prod.ext hremoved rfl)).resolve_left fun h => hA h.1
  refine ⟨⟨changed, _, Prod.ext hchanged rfl, ?_⟩,
    ⟨removed, _, Prod.ext hremoved rfl, old, located, removes, hresult⟩,
    ⟨added, _, Prod.ext hadded rfl, new, adds, seeds, reread lacks⟩, ⟨old, located, ?_⟩, ?_, ?_⟩
  · refine ((updateA _ (single _ _)).1 changed _ (Prod.ext hchanged rfl)).resolve_left fun h => ?_
    exact hA h.1
  · exact (upsertA "fresh" _ [] (single _ _) List.nodup_nil).2 old located rfl
  · exact (updateC _ (single _ _)).2 none rfl rfl
  · exact (deleteC uncascaded_orders).2 none

end Model

end Relata
