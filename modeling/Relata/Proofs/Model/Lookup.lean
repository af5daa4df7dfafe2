import Relata.Proofs.Model.Faults
import Relata.Proofs.Store.Effects
import Relata.Proofs.Store.Regular

/-! # Looking up a row

A lookup that has a result leaves the store as it is. What it finds is the record of a row
of the table, and by the identity of a row it finds that row.
-/

namespace Relata

open Text

namespace Session

variable {α : Type} {s t : Session}

/-- Whether the jobs of a handle are not refused for the body that the task is in. -/
def Reaches (s : Session) (h : Handle) : Prop :=
  h.mode = .transaction ∨ s.bodies = 0

theorem run_hold_ok {h : Handle} {x : Handle → Op α} {a : α}
    (hrun : s.run (h.hold x).run = (.ok a, t)) :
    s.Reaches h ∧ ∃ u v : Session, u.site = s.site ∧ u.behind = s.behind ∧
      u.run (x h.inside).run = (.ok a, v) ∧ t.site = v.site ∧ t.behind = v.behind := by
  rcases s.run_hold_cases h x with ⟨hm, hx⟩ | ⟨-, hb, hx⟩ | hx
  · rw [hx] at hrun
    rw [Handle.inside_of_mode hm]
    exact ⟨.inl hm, s, t, rfl, rfl, hrun, rfl, rfl⟩
  · rw [hx] at hrun
    obtain ⟨ha, rfl⟩ := Prod.mk.inj hrun
    exact ⟨.inr hb, { s with holds := true }, _, rfl, rfl, Prod.ext ha rfl, rfl, rfl⟩
  · rw [hx] at hrun
    cases hrun

theorem run_hold_reaches {h : Handle} (reaches : s.Reaches h) (x : Handle → Op α) :
    ∃ u : Session, u.site = s.site ∧ u.behind = s.behind ∧
      (s.run (h.hold x).run).1 = (u.run (x h.inside).run).1 := by
  cases hm : h.mode with
  | transaction =>
    refine ⟨s, rfl, rfl, ?_⟩
    rw [Handle.run_hold_inside hm, Handle.inside_of_mode hm]
  | autocommit =>
    refine ⟨{ s with holds := true }, rfl, rfl, ?_⟩
    rw [Handle.run_hold_outside hm, run_gated (reaches.resolve_left (by rw [hm]; simp))]

theorem exists_run_perform {h : Handle} (reaches : s.Reaches h) (ready : s.Ready) {job : Job}
    (hj : job ≠ .shut) :
    ∃ v : Session, s.run (h.perform job).run =
        ((s.site.connection.perform job).1.mapError Refusal.failure, v) ∧
      v.site.connection = (s.site.connection.perform job).2 ∧ v.Reaches h ∧ v.Ready := by
  obtain ⟨isOpen, behind⟩ := ready
  have hperform (s : Session) (isOpen : s.site.isOpen = true) (behind : s.behind = []) :
      ∃ v : Session, s.perform job =
          ((s.site.connection.perform job).1.mapError Refusal.failure, v) ∧
        v.site.connection = (s.site.connection.perform job).2 ∧ v.bodies = s.bodies ∧
        v.Ready := by
    rw [perform_of_behind behind, Site.perform_of_isOpen isOpen hj]
    exact ⟨_, rfl, rfl, rfl, isOpen, behind⟩
  cases hm : h.mode with
  | transaction =>
    rw [run_perform_inside hm]
    obtain ⟨v, hv, hconnection, -, ready⟩ := hperform s isOpen behind
    exact ⟨v, hv, hconnection, .inl hm, ready⟩
  | autocommit =>
    have outside : s.bodies = 0 := reaches.resolve_left (by rw [hm]; simp)
    rw [run_perform_outside hm, if_pos outside]
    obtain ⟨v, hv, hconnection, hbodies, ready⟩ := hperform { s with holds := true } isOpen behind
    rw [hv]
    exact ⟨{ v with holds := false }, rfl, hconnection, .inr (hbodies.trans outside), ready.1,
      ready.2⟩

theorem run_perform_reply {h : Handle} (reaches : s.Reaches h) (hb : s.behind = [])
    (isOpen : s.site.isOpen = true) {job : Job} (hj : job ≠ .shut) :
    (s.run (h.perform job).run).1 = (s.site.connection.perform job).1.mapError Refusal.failure := by
  obtain ⟨v, hv, -⟩ := exists_run_perform reaches ⟨isOpen, hb⟩ hj
  rw [hv]

theorem reaches_of_run_perform {h : Handle} {job : Job} (hj : job ≠ .shut) (hb : s.behind = [])
    {a : Answer} (hrun : s.run (h.perform job).run = (.ok a, t)) :
    s.Reaches h ∧ s.site.isOpen = true ∧ t.site.isOpen = true := by
  have isOpen {s : Session} (hb : s.behind = []) (hreply : (s.perform job).1 = .ok a) :
      s.site.isOpen = true ∧ (s.perform job).2.site.isOpen = true := by
    rw [perform_of_behind hb] at hreply ⊢
    cases isOpen : s.site.isOpen with
    | true =>
      rw [Site.perform_of_isOpen isOpen hj]
      exact ⟨rfl, isOpen⟩
    | false =>
      rw [Site.perform_of_shut isOpen hj] at hreply
      cases hreply
  rw [Handle.perform] at hrun
  rcases s.run_hold_cases h fun inner => .mk (inner.ask job) with ⟨hm, hx⟩ | ⟨-, hout, hx⟩ | hx
  · obtain ⟨hreply, rfl⟩ := Prod.mk.inj (hx.symm.trans hrun)
    exact ⟨.inl hm, isOpen hb hreply⟩
  · obtain ⟨hreply, rfl⟩ := Prod.mk.inj (hx.symm.trans hrun)
    exact ⟨.inr hout, @isOpen { s with holds := true } hb hreply⟩
  · cases hx.symm.trans hrun

theorem run_perform_inside_ok {h : Handle} (inside : h.mode = .transaction) (hb : s.behind = [])
    {k : Command} {a : Answer} (hrun : s.run (h.perform (.command k)).run = (.ok a, t)) :
    (s.site.connection.execute k).1 = .ok a ∧
      t.site.connection = (s.site.connection.execute k).2 ∧ t.Ready := by
  obtain ⟨-, isOpen, hleft⟩ := reaches_of_run_perform (by simp) hb hrun
  rw [run_perform_inside inside, perform_of_behind hb, Site.perform_of_isOpen isOpen (by simp),
    Connection.perform] at hrun
  obtain ⟨hreply, rfl⟩ := Prod.mk.inj hrun
  refine ⟨?_, rfl, hleft, hb⟩
  cases ha : (s.site.connection.execute k).1 with
  | ok b =>
    rw [ha] at hreply
    exact congrArg _ (Except.ok.inj hreply)
  | error r =>
    rw [ha] at hreply
    cases hreply

theorem run_op_bind_of_ok {β : Type} {x : Op α} {a : α} (h : (s.run x.run).1 = .ok a)
    (f : α → Op β) : s.run (x >>= f).run = (s.run x.run).2.run (f a).run := by
  rw [run_op_bind]
  cases hx : s.run x.run with | mk result u =>
  rw [hx] at h
  cases h
  rfl

theorem run_check {β : Type} {e : Except Fault α} {a : α} (passed : e = .ok a) (f : α → Op β) :
    s.run (liftM e >>= f).run = s.run (f a).run := by
  rw [passed]
  rfl

theorem run_check_ok {β : Type} {e : Except Fault α} {f : α → Op β} {b : β}
    (hrun : s.run (liftM e >>= f).run = (.ok b, t)) :
    ∃ a, e = .ok a ∧ s.run (f a).run = (.ok b, t) := by
  obtain ⟨a, u, hcheck, hrest⟩ := run_op_bind_ok hrun
  obtain ⟨ha, rfl⟩ := run_lift_ok hcheck
  exact ⟨a, ha, hrest⟩

end Session

theorem Scalar.isNull_toValue (s : Scalar) : s.toValue.isNull = s.isNull := by
  cases s <;> rfl

theorem Scalar.toValue_injective {s s' : Scalar} (h : s.toValue = s'.toValue) : s = s' := by
  cases s <;> cases s' <;> cases h <;> rfl

theorem Scalar.eq_of_toScalar {s s' : Scalar} {field : String}
    (h : s.toValue.toScalar field = .ok s') : s' = s := by
  cases s with
  | real x =>
    rw [toValue, Value.toScalar] at h
    split at h
    · exact (Except.ok.inj h).symm
    · cases h
  | null | integer | text | blob => exact (Except.ok.inj h).symm

namespace Filter

variable {cs : List Condition}

theorem toScalar_of_conditions {v : Value} (hv : v.isNull = false)
    (h : conditions (eq [] Record.key v) = .ok cs) :
    ∃ s, v.toScalar Record.key = .ok s ∧ cs = Condition.keyed s := by
  obtain ⟨-, c, ds, hc, hds, rfl⟩ := conditions_test h
  cases hds
  obtain ⟨s, hs, rfl⟩ := Test.condition_equal hv hc
  exact ⟨s, hs, rfl⟩

theorem conditions_keyed {s : Scalar} (present : s.isNull = false)
    (h : conditions (eq [] Record.key s.toValue) = .ok cs) : cs = Condition.keyed s := by
  have hvalue : s.toValue.isNull = false := by
    rw [Scalar.isNull_toValue, present]
  obtain ⟨s', hs', rfl⟩ := toScalar_of_conditions hvalue h
  rw [Scalar.eq_of_toScalar hs']

end Filter

namespace Definition

variable {d : Definition} {row : Row}

theorem get?_record_of_ne {name : String} (h : ∀ c ∈ d.columns, c.name ≠ name) (row : Row) :
    Entries.get? (d.record row) name = none := by
  rw [record, Entries.ofList, Entries.get?_extend]
  cases hget : Entries.get?
    ((d.columns.map Column.name).zip (row.cells.map Scalar.toValue)).reverse name with
  | none => rfl
  | some v =>
    have hmem := List.mem_reverse.mp (Entries.mem_of_get? hget)
    obtain ⟨c, hc, hname⟩ := List.mem_map.mp (List.of_mem_zip hmem).1
    exact absurd hname (h c hc)

theorem Regular.cell_of_record (regular : d.Regular) {c : Column} (hc : c ∈ d.columns) {row' : Row}
    (fits : d.Fits row) (fits' : d.Fits row') (h : d.record row = d.record row') :
    d.cell row c.name = d.cell row' c.name := by
  have hget := regular.get?_record hc fits.length
  rw [h, regular.get?_record hc fits'.length] at hget
  exact (Scalar.toValue_injective (Option.some.inj hget)).symm

/-- A row with an identity is located by it. -/
theorem Identifies.locator_record (identifies : d.Identifies row) (regular : d.Regular)
    (fits : d.Fits row) (f : Filter) :
    (d.record row).locator f = Filter.eq [] Record.key (d.cell row Record.key).toValue := by
  obtain ⟨⟨c, hc, hname⟩, present⟩ := identifies
  have hget := regular.get?_record hc fits.length
  rw [hname] at hget
  have hvalue : (d.cell row Record.key).toValue.isNull = false := by
    rw [Scalar.isNull_toValue, present]
  rw [Record.locator, hget]
  exact if_neg (by rw [hvalue]; exact Bool.false_ne_true)

theorem locator_record_of_not (anonymous : ¬ d.Identifies row) (regular : d.Regular)
    (fits : d.Fits row) (f : Filter) : (d.record row).locator f = f := by
  by_cases h : ∃ c ∈ d.columns, c.name = Record.key
  · obtain ⟨c, hc, hname⟩ := h
    have hget := regular.get?_record hc fits.length
    rw [hname] at hget
    have hnull : d.cell row Record.key = .null := by
      cases h : d.cell row Record.key with
      | null => rfl
      | _ => exact absurd ⟨⟨c, hc, hname⟩, by rw [h]; rfl⟩ anonymous
    rw [Record.locator, hget, hnull]
    rfl
  · have hnone := get?_record_of_ne (fun c hc hname => h ⟨c, hc, hname⟩) row
    rw [Record.locator, hnone]

end Definition

namespace Table.Keyed

variable {t : Table} (keyed : t.Keyed) {r r' : Row} (hr : r ∈ t.rows)

include keyed hr

theorem locator_record (f : Filter) :
    (t.definition.record r).locator f =
      Filter.eq [] Record.key (t.definition.cell r Record.key).toValue :=
  (keyed.identifies hr).locator_record keyed.regular (keyed.fits r hr) f

/-- Rows are told apart by what is shown of them. -/
theorem eq_of_record (hr' : r' ∈ t.rows) (h : t.definition.record r = t.definition.record r') :
    r = r' := by
  obtain ⟨c, hc, hname⟩ := keyed.identity
  have hcell := keyed.regular.cell_of_record hc (keyed.fits r hr) (keyed.fits r' hr') h
  rw [hname] at hcell
  have hselects := keyed.selects_self (f := { definition := t.definition }) rfl hr'
  rw [← hcell] at hselects
  have hmem := List.mem_filter.mpr ⟨hr', hselects⟩
  rw [keyed.filter_self rfl hr] at hmem
  exact (List.mem_singleton.mp hmem).symm

end Table.Keyed

theorem Page.mem_of_mem_cut {α : Type} {page : Page} {as : List α} {a : α}
    (h : a ∈ page.cut as) : a ∈ as := by
  rw [cut] at h
  split at h
  · exact List.mem_of_mem_drop (List.mem_of_mem_take h)
  · exact List.mem_of_mem_drop h

theorem Database.exists_row_of_query {db : Database} {table : String} {t : Table}
    (ht : db.table? table = some t) {cs : List Condition} {order : Order} {page : Page}
    {records : List Record} (h : db.query .everything table cs order page = .ok records)
    {record : Record} (hrecord : record ∈ records) :
    ∃ r ∈ t.rows, record = t.definition.record r ∧
      Condition.selects (db.frame t) cs r = true := by
  obtain ⟨rows, hperm, rfl⟩ := query_page_ok ht h
  obtain ⟨r, hr, rfl⟩ := List.mem_map.mp hrecord
  obtain ⟨hrow, hselects⟩ := List.mem_filter.mp (hperm.mem_iff.mp (Page.mem_of_mem_cut hr))
  exact ⟨r, hrow, rfl, hselects⟩

theorem Filter.selects_conditions {f : Filter} {cs : List Condition}
    (h : Filter.conditions f = .ok cs) (frame : Frame) (row : Row) :
    Condition.selects frame cs row = (Filter.truth frame row f).holds := by
  rw [Condition.selects, Condition.all_truths, Filter.conjunctionTruth_conditions h]

namespace Model

variable {m : Model} {c : Connection} {t : Table} {f : Filter} {found : Option Record}
  {s u : Session}

/-- The table of a model in a database. Its rows are told apart by their identities, and no
field is admitted that is not the name of a column. -/
structure Keyed (m : Model) (db : Database) (t : Table) : Prop where
  regular : db.Regular
  known : db.table? m.table = some t
  identified : t.Identified
  declared : ∀ field, m.schema.admits m.table field = true →
    ∃ c ∈ t.definition.columns, c.name = field

/-- What a filter finds first by way of a connection. -/
structure Finds (m : Model) (c : Connection) (f : Filter) (found : Option Record) : Prop where
  checked : m.checkFilter f = .ok ()
  plain : PlainName m.table.toList
  answered : ∃ cs a, Filter.conditions f = .ok cs ∧
    (c.execute (.query .everything m.table cs [] { take := some 1 })).1 = .ok a ∧
    found = a.rows.head?

/-- No name of a lookup is a keyword, so that it is carried out as it is. -/
def Unambiguous (m : Model) (f : Filter) : Prop :=
  ∀ name ∈ m.table :: Filter.fields f, Sql.isKeyword name.toList = false

theorem Unambiguous.names (names : m.Unambiguous f) {cs : List Condition}
    (hcs : Filter.conditions f = .ok cs) (page : Page) :
    ∀ name ∈ (Command.query .everything m.table cs [] page).names,
      Sql.isKeyword name.toList = false := by
  intro name hname
  rcases List.mem_cons.mp hname with rfl | hname
  · exact names _ List.mem_cons_self
  · rcases List.mem_append.mp hname with hname | hname
    · exact names name (List.mem_cons_of_mem _ (Filter.columns_conditions hcs name hname))
    · cases hname

theorem complete_filter (m : Model) (f : Filter) (rows : List Record) :
    m.complete { filter := f } rows = pure rows := by
  rw [complete, Model.attach]
  rfl

theorem findUnique_eq (m : Model) (f : Filter) :
    m.findUnique { filter := f } = (do
      m.checkFind { filter := f }
      let rows ← m.select f [] { take := some 1 }
      return rows.head?) := by
  have hcomplete := m.complete_filter f
  simp only [findUnique, hcomplete]
  rfl

theorem select_ok (hb : s.behind = []) {page : Page} {records : List Record}
    (hrun : s.run (m.select f [] page).run = (.ok records, u)) :
    PlainName m.table.toList ∧
      (∃ cs a, Filter.conditions f = .ok cs ∧
        (s.site.connection.execute (.query .everything m.table cs [] page)).1 = .ok a ∧
        records = a.rows) ∧
      (s.Reaches m.handle ∧ s.site.isOpen = true) ∧
      u.site.connection = s.site.connection ∧ u.Ready := by
  obtain ⟨cs, hcs, hselect⟩ := Session.run_check_ok hrun
  obtain ⟨k, hk, hselect⟩ := Session.run_check_ok hselect
  obtain ⟨table, htable, hk⟩ := bind_eq_ok.mp hk
  obtain ⟨rfl, plain⟩ := Filter.checkedName_eq_ok htable
  cases hk
  obtain ⟨a, w, hperform, hrows⟩ := Session.run_op_bind_ok hselect
  obtain ⟨rfl, rfl⟩ := Session.run_pure_ok hrows
  obtain ⟨hanswer, hleft, hbehind⟩ := Session.run_perform_select rfl hb hperform
  obtain ⟨reaches, isOpen, goesOn⟩ := Session.reaches_of_run_perform (by simp) hb hperform
  exact ⟨plain, ⟨cs, a, hcs, hanswer, rfl⟩, ⟨reaches, isOpen⟩, hleft, goesOn, hbehind⟩

theorem findUnique_ok (hb : s.behind = [])
    (hrun : s.run (m.findUnique { filter := f }).run = (.ok found, u)) :
    m.Finds s.site.connection f found ∧ (s.Reaches m.handle ∧ s.site.isOpen = true) ∧
      u.site.connection = s.site.connection ∧ u.Ready := by
  rw [findUnique_eq] at hrun
  obtain ⟨_, hcheck, hrun⟩ := Session.run_check_ok hrun
  obtain ⟨_, -, hrest⟩ := bind_eq_ok.mp hcheck
  obtain ⟨_, hfilter, -⟩ := bind_eq_ok.mp hrest
  obtain ⟨rows, v, hselect, hdone⟩ := Session.run_op_bind_ok hrun
  obtain ⟨rfl, rfl⟩ := Session.run_pure_ok hdone
  obtain ⟨plain, ⟨cs, a, hcs, hanswer, rfl⟩, reached, hleft, ready⟩ := select_ok hb hselect
  exact ⟨⟨hfilter, plain, cs, a, hcs, hanswer, rfl⟩, reached, hleft, ready⟩

/-- What can be found is found by a lookup that reaches the store. -/
theorem Finds.run (finds : m.Finds s.site.connection f found) (reaches : s.Reaches m.handle)
    (hb : s.behind = []) (isOpen : s.site.isOpen = true) :
    (s.run (m.findUnique { filter := f }).run).1 = .ok found := by
  obtain ⟨cs, a, hcs, hanswer, rfl⟩ := finds.answered
  have hname : checkedName m.table = .ok m.table := if_pos (isPlainName_iff.mpr finds.plain)
  have hcommand : Command.select m.table cs [] { take := some 1 } =
      .ok (.query .everything m.table cs [] { take := some 1 }) := by
    rw [Command.select, hname]
    rfl
  let k := Command.query .everything m.table cs [] { take := some 1 }
  have hreply : (s.run (m.perform k).run).1 = _ :=
    Session.run_perform_reply reaches hb isOpen (by simp)
  rw [Connection.perform, hanswer] at hreply
  have hselect : (s.run (m.select f [] { take := some 1 }).run).1 = .ok a.rows := by
    rw [select, Session.run_check hcs, Session.run_check hcommand, Session.run_op_map]
    exact congrArg (Except.map _) hreply
  rw [findUnique_eq, Session.run_check (checkFind_of_checkFilter finds.checked),
    Session.run_op_map, hselect]
  rfl

/-- By an identity that one row has, this row is found. -/
theorem Finds.eq_row {s : Scalar} {r : Row}
    (finds : m.Finds c (Filter.eq [] Record.key s.toValue) found) (present : s.isNull = false)
    (ht : c.database.table? m.table = some t)
    (hfilter : t.rows.filter (Condition.selects (c.database.frame t) (Condition.keyed s)) = [r]) :
    found = some (t.definition.record r) := by
  obtain ⟨cs, a, hcs, hanswer, rfl⟩ := finds.answered
  rw [Filter.conditions_keyed present hcs] at hanswer
  rw [Connection.execute_row finds.plain ht hfilter hanswer]
  rfl

theorem Finds.of_filter {cs : List Condition} {a : Answer} {row : Option Row}
    (checked : m.checkFilter f = .ok ()) (plain : PlainName m.table.toList)
    (hcs : Filter.conditions f = .ok cs) (known : c.database.table? m.table = some t)
    (names : ∀ name ∈ (Command.query .everything m.table cs [] { take := some 1 }).names,
      Sql.isKeyword name.toList = false)
    (h : (c.execute (.query .everything m.table cs [] { take := some 1 })).1 = .ok a)
    (hfilter : t.rows.filter (Condition.selects (c.database.frame t) cs) = row.toList) :
    m.Finds c f (row.map t.definition.record) := by
  obtain ⟨rows, hperm, hrows⟩ := Connection.execute_page plain known names h
  rw [hfilter] at hperm
  refine ⟨checked, plain, cs, a, hcs, h, ?_⟩
  rw [hrows]
  cases row with
  | none => rw [hperm.eq_nil]; rfl
  | some row => rw [hperm.eq_singleton]; rfl

theorem Finds.of_through {c : Connection} {h : Handle} {found : Option Record}
    (finds : (m.through h).Finds c f found) : m.Finds c f found :=
  ⟨finds.checked, finds.plain, finds.answered⟩

theorem Finds.through {c : Connection} {found : Option Record} (finds : m.Finds c f found)
    (h : Handle) : (m.through h).Finds c f found :=
  ⟨finds.checked, finds.plain, finds.answered⟩

theorem Finds.exists_key {c : Connection} {v : Value} {record : Record} (hv : v.isNull = false)
    (ht : c.database.table? m.table = some t)
    (finds : m.Finds c (Filter.eq [] Record.key v) (some record)) :
    ∃ r ∈ t.rows, record = t.definition.record r ∧
      (Filter.truth (c.database.frame t) r (Filter.eq [] Record.key v)).holds = true := by
  obtain ⟨cs, a, hcs, hanswer, hfound⟩ := finds.answered
  obtain ⟨s, -, rfl⟩ := Filter.toScalar_of_conditions hv hcs
  have hquery := Connection.query_of_run?
    (Connection.execute_definite (.select finds.plain s) hanswer)
  obtain ⟨r, hrow, rfl, hselects⟩ :=
    Database.exists_row_of_query ht hquery (List.mem_of_head? hfound.symm)
  exact ⟨r, hrow, rfl, by rw [← Filter.selects_conditions hcs]; exact hselects⟩

theorem Finds.exists_row {record : Record} (finds : m.Finds c f (some record))
    (known : c.database.table? m.table = some t) :
    ∃ r ∈ t.rows, record = t.definition.record r ∧
      (m.Unambiguous f → (Filter.truth (c.database.frame t) r f).holds = true) := by
  obtain ⟨cs, a, hcs, hanswer, hfound⟩ := finds.answered
  obtain ⟨cs', order', page', hquery, hsame⟩ := Connection.execute_select finds.plain hanswer
  obtain ⟨r, hrow, rfl, hselects⟩ :=
    Database.exists_row_of_query known hquery (List.mem_of_head? hfound.symm)
  refine ⟨r, hrow, rfl, fun names => ?_⟩
  obtain ⟨rfl, -, -⟩ := hsame (names.names hcs _)
  rw [← Filter.selects_conditions hcs]
  exact hselects

/-- Where nothing is found, the filter holds of no row. -/
theorem Finds.holds_none (finds : m.Finds c f none) (known : c.database.table? m.table = some t)
    (names : m.Unambiguous f) {r : Row} (hr : r ∈ t.rows) :
    (Filter.truth (c.database.frame t) r f).holds = false := by
  obtain ⟨cs, a, hcs, hanswer, hfound⟩ := finds.answered
  obtain ⟨rows, hperm, hrows⟩ :=
    Connection.execute_page finds.plain known (names.names hcs _) hanswer
  have hempty : rows = [] := by
    rw [hrows] at hfound
    cases rows with
    | nil => rfl
    | cons row rest => cases hfound
  rw [hempty] at hperm
  rw [← Filter.selects_conditions hcs]
  exact Bool.eq_false_iff.mpr (List.filter_eq_nil_iff.mp hperm.symm.eq_nil r hr)

namespace Keyed

theorem rows {db : Database} (keyed : m.Keyed db t) : t.Keyed :=
  ⟨keyed.regular.tables t (Database.mem_of_table? keyed.known), keyed.identified⟩

theorem through {db : Database} (keyed : m.Keyed db t) (h : Handle) : (m.through h).Keyed db t :=
  ⟨keyed.regular, keyed.known, keyed.identified, keyed.declared⟩

variable (keyed : m.Keyed c.database t)

include keyed

theorem exists_row {record : Record} (finds : m.Finds c f (some record)) :
    ∃ r ∈ t.rows, record = t.definition.record r ∧
      (m.Unambiguous f → (Filter.truth (c.database.frame t) r f).holds = true) :=
  finds.exists_row keyed.known

theorem holds_none (finds : m.Finds c f none) (names : m.Unambiguous f) {r : Row}
    (hr : r ∈ t.rows) : (Filter.truth (c.database.frame t) r f).holds = false :=
  finds.holds_none keyed.known names hr

end Keyed

end Model

end Relata
