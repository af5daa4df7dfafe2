import Relata.Proofs.Model.Cost
import Relata.Proofs.Model.Located
import Relata.Proofs.Model.Retained

/-! # What an update answers

An update reads again what it has written, by the identity of the row that it located or, if
the row has none, by the filter. An identity that is not itself written finds a row that was
changed. A filter need not hold of anything any more.
-/

namespace Relata

open Text

namespace Model

variable {m : Model} {c d : Connection} {s u : Session} {t : Table} {f : Filter} {data : Record}
  {old : Row} {result : Option Record}

def UnambiguousChange (m : Model) (f : Filter) (data : Record) : Prop :=
  m.Unambiguous f ∧ ∀ name ∈ Entries.names data, Sql.isKeyword name.toList = false

theorem UnambiguousChange.names (names : m.UnambiguousChange f data)
    {cells : List (String × Scalar)} (hcells : Command.cells (data.erase Record.key) = .ok cells)
    {cs : List Condition} (free : ∀ name ∈ m.table :: Condition.columnsOfAll cs,
      Sql.isKeyword name.toList = false) :
    ∀ name ∈ (Command.update m.table cells cs).names, Sql.isKeyword name.toList = false := by
  intro name hname
  rcases List.mem_cons.mp hname with rfl | hname
  · exact free _ List.mem_cons_self
  rcases List.mem_append.mp hname with hname | hname
  · rw [← Entries.names, (Command.names_cells hcells).1] at hname
    exact names.2 name ((List.filter_sublist.map Prod.fst).subset hname)
  · exact free name (List.mem_cons_of_mem _ hname)

/-- All rows that are meant by a row that was located are given the cells, and one of them is
read again by its identity. A row without identity is looked up by the filter again. -/
structure Rewrites (m : Model) (c d : Connection) (t : Table) (f : Filter) (data : Record)
    (old : Row) (cells : List (String × Scalar)) (result : Option Record) : Prop where
  given : Command.cells (data.erase Record.key) = .ok cells
  writes : t.definition.Identifies old ∨ m.UnambiguousChange f data →
    c.database.Exchange t (c.database.meant t f old)
        ((c.database.meant t f old).map (t.definition.rewritten cells)) d.database ∧
      d.changes = (c.database.meant t f old).length
  identified : t.definition.Identifies old → t.definition.Spares data Record.key →
    ∃ r ∈ t.namesakes old, result = some (t.definition.record (t.definition.rewritten cells r))
  anonymous : ¬ t.definition.Identifies old → m.Finds d f result

theorem Rewrites.of_through {h : Handle} {cells : List (String × Scalar)}
    (rewrites : (m.through h).Rewrites c d t f data old cells result) :
    m.Rewrites c d t f data old cells result :=
  ⟨rewrites.given, rewrites.writes, rewrites.identified,
    fun anonymous => (rewrites.anonymous anonymous).of_through⟩

/-- What an update may come to by way of a connection. -/
inductive Rewriting (m : Model) (c : Connection) (t : Table) (f : Filter) (data : Record) :
    Option Record → Connection → Prop
  | missed (finds : m.Finds c f none) : Rewriting m c t f data none c
  | written {old : Row} {d : Connection} {cells : List (String × Scalar)} {result : Option Record}
      (mem : old ∈ t.rows) (finds : m.Finds c f (some (t.definition.record old)))
      (holds : m.Unambiguous f → (Filter.truth (c.database.frame t) old f).holds = true)
      (rewrites : m.Rewrites c d t f data old cells result) : Rewriting m c t f data result d

theorem Finds.namesake (regular : t.Regular) (hold : old ∈ t.rows)
    (identifies : t.definition.Identifies old) {cells : List (String × Scalar)}
    (apart : ∀ e ∈ cells, ¬ t.definition.SamePlace e.1 Record.key) {db : Database}
    {rows : List Row}
    (hrows : rows.Perm ((t.namesakes old).map (t.definition.rewritten cells) ++
      db.unchosen t (Condition.keyed (t.definition.cell old Record.key))))
    (known : d.database.table? m.table = some { t with rows })
    (finds : m.Finds d (Filter.eq [] Record.key (t.definition.cell old Record.key).toValue)
      result) :
    ∃ r ∈ t.namesakes old,
      result = some (t.definition.record (t.definition.rewritten cells r)) := by
  obtain ⟨cs, a, hcs, hanswer, rfl⟩ := finds.answered
  rw [Filter.conditions_keyed identifies.present hcs] at hanswer
  have hchosen := Database.chosen_rewritten d.database regular hold identifies apart hrows
  have literal := (Command.Definite.select finds.plain (t.definition.cell old Record.key)).literal
  rcases Connection.head_chosen literal known hanswer with ⟨hnone, -⟩ | ⟨r, hr, hhead⟩
  · rw [hnone] at hchosen
    have hself :=
      List.mem_map_of_mem (f := t.definition.rewritten cells) (t.mem_namesakes_self hold)
    cases hchosen.mem_iff.mpr hself
  · obtain ⟨r', hr', rfl⟩ := List.mem_map.mp (hchosen.mem_iff.mp hr)
    exact ⟨r', hr', hhead⟩

theorem rewriting_of_updateHeld {inner : Handle} (inside : inner.mode = .transaction)
    (regular : s.site.connection.database.Regular)
    (known : s.site.connection.database.table? m.table = some t) (hb : s.behind = [])
    (hrun : s.run ((m.through inner).updateHeld f data).run = (.ok result, u)) :
    s.site.isOpen = true ∧ m.Rewriting s.site.connection t f data result u.site.connection := by
  obtain ⟨found, v, hfind, hrest⟩ := Session.run_op_bind_ok hrun
  obtain ⟨finds, ⟨-, isOpen⟩, hv, -, hbv⟩ := findUnique_ok hb hfind
  refine ⟨isOpen, ?_⟩
  cases found with
  | none =>
    obtain ⟨rfl, rfl⟩ := Session.run_pure_ok hrest
    rw [hv]
    exact .missed finds.of_through
  | some record =>
    obtain ⟨old, hold, rfl, holds⟩ := finds.of_through.exists_row known
    obtain ⟨cs, hcs, hrest⟩ := Session.run_check_ok hrest
    obtain ⟨k, hk, hrest⟩ := Session.run_check_ok hrest
    obtain ⟨cells, hcells, rfl, plain, names, some⟩ := Command.assignment_cells hk
    obtain ⟨a, w, hperform, hreread⟩ := Session.run_op_bind_ok hrest
    obtain ⟨hanswer, hw, -, hbw⟩ := perform_ok inside hbv hperform
    rw [hv] at hanswer hw
    obtain ⟨finds', -, hu, -⟩ := findUnique_ok hbw hreread
    rw [← hu] at finds'
    have htable := regular.tables t (Database.mem_of_table? known)
    have hchosen := chosen_locator s.site.connection.database htable hold hcs
    have written (clear : t.definition.Identifies old ∨ m.UnambiguousChange f data) :=
      Connection.rewrite_chosen (literal_locator htable hold hcs (.update plain names some)
        (fun anonymous free => (clear.resolve_left anonymous).names hcells free)
        (clear.imp_right And.left)) known hanswer
    refine .written hold finds.of_through holds
      ⟨hcells, fun clear => ?_, fun identifies spares => ?_, fun anonymous => ?_⟩
    · obtain ⟨rows, hrows, hleft⟩ := written clear
      have hperm := s.site.connection.database.perm_chosen t cs
      rw [hchosen] at hrows hperm hleft
      rw [hu, hw, hleft]
      exact ⟨Database.exchange_setRows regular.distinct known hperm hrows, rfl⟩
    · obtain ⟨rows, hrows, hleft⟩ := written (.inl identifies)
      rw [identifies.locator_record htable.regular (htable.fits old hold)] at hcs finds'
      rw [Filter.conditions_keyed identifies.present hcs,
        Database.chosen_keyed _ htable hold identifies] at hrows
      refine finds'.of_through.namesake htable hold identifies (spares.apart hcells) hrows ?_
      rw [hu, hw, hleft]
      exact Database.table?_setRows known rows
    · rw [Definition.locator_record_of_not anonymous htable.regular
        (htable.fits old hold)] at finds'
      exact finds'.of_through

theorem rewriting_of_update (regular : s.site.connection.database.Regular)
    (known : s.site.connection.database.table? m.table = some t) (hb : s.behind = [])
    (hrun : s.run (m.update f data).run = (.ok result, u)) :
    s.Reaches m.handle ∧ s.Ready ∧
      m.Rewriting s.site.connection t f data result u.site.connection := by
  rw [update_eq] at hrun
  split at hrun
  · obtain ⟨_, -, hrun⟩ := Session.run_check_ok hrun
    obtain ⟨_, -, hrun⟩ := Session.run_check_ok hrun
    obtain ⟨reaches, v, w, hv, hbv, hheld, hu, -⟩ := Session.run_hold_ok hrun
    rw [← hv] at regular known
    obtain ⟨isOpen, rewriting⟩ := rewriting_of_updateHeld rfl regular known (hbv.trans hb) hheld
    rw [hv, ← hu] at rewriting
    exact ⟨reaches, ⟨hv ▸ isOpen, hb⟩, rewriting⟩
  · cases hrun

theorem executed_update_none (hb : s.behind = []) (finds : m.Finds s.site.connection f none)
    (hrun : s.run (m.update f data).run = (.ok result, u)) :
    u.site.executed ≤ s.site.executed + 1 := by
  rw [update_eq] at hrun
  split at hrun
  · obtain ⟨_, -, hrun⟩ := Session.run_check_ok hrun
    obtain ⟨_, -, hrun⟩ := Session.run_check_ok hrun
    obtain ⟨-, v, w, hv, hbv, hheld, hu, -⟩ := Session.run_hold_ok hrun
    obtain ⟨found, v', hfind, hrest⟩ := Session.run_op_bind_ok hheld
    obtain ⟨finds', -⟩ := findUnique_ok (hbv.trans hb) hfind
    rw [hv] at finds'
    obtain rfl := finds'.of_through.unique finds
    obtain ⟨rfl, rfl⟩ := Session.run_pure_ok hrest
    have hlookup := Session.executed_run ((m.through m.handle.inside).within_ask
      (o := .findUnique { filter := f }) rfl) v
    have howed : v.owed = 0 := by rw [Session.owed, hbv, hb]; rfl
    have hleft : (v.run (((m.through m.handle.inside).findUnique { filter := f })).run).2 = w :=
      congrArg Prod.snd hfind
    rw [hu, ← hleft, ← hv]
    exact Nat.le_trans (Nat.le_add_right ..) (by rw [howed] at hlookup; exact hlookup)
  · cases hrun

theorem Finds.of_key (regular : t.Regular) (hold : old ∈ t.rows)
    (identifies : t.definition.Identifies old) (known : c.database.table? m.table = some t)
    (finds : m.Finds c (Filter.eq [] Record.key (t.definition.cell old Record.key).toValue)
      result) :
    ∃ r ∈ t.namesakes old, result = some (t.definition.record r) := by
  obtain ⟨cs, a, hcs, hanswer, rfl⟩ := finds.answered
  rw [Filter.conditions_keyed identifies.present hcs] at hanswer
  have literal := (Command.Definite.select finds.plain (t.definition.cell old Record.key)).literal
  have hchosen := c.database.chosen_keyed regular hold identifies
  rcases Connection.head_chosen literal known hanswer with ⟨hnone, -⟩ | ⟨r, hr, hhead⟩
  · have hself := t.mem_namesakes_self hold
    rw [← hchosen, hnone] at hself
    cases hself
  · exact ⟨r, hchosen ▸ hr, hhead⟩

/-- What is written by way of a row is written by way of every row of its identity. -/
theorem Rewrites.of_namesake {g : Filter} {r : Row} {cells : List (String × Scalar)}
    (rewrites : m.Rewrites c d t g data r cells result) (identifies : t.definition.Identifies old)
    (hr : r ∈ t.namesakes old) : m.Rewrites c d t f data old cells result := by
  have identifies' := t.identifies_of_mem identifies hr
  have hmeant : c.database.meant t g r = c.database.meant t f old := by
    rw [Database.meant, Database.meant, if_pos identifies, if_pos identifies',
      Table.namesakes_eq_of_mem hr]
  refine ⟨rewrites.given, fun _ => ?_, fun _ spares => ?_, fun anonymous => ?_⟩
  · rw [← hmeant]
    exact rewrites.writes (.inl identifies')
  · rw [← Table.namesakes_eq_of_mem hr]
    exact rewrites.identified identifies' spares
  · exact absurd identifies anonymous

/-- An update by what locates a row is one of the rows that are meant by it. -/
theorem Rewriting.of_locator (regular : t.Regular) (known : c.database.table? m.table = some t)
    (hold : old ∈ t.rows) (finds : m.Finds c f (some (t.definition.record old)))
    (holds : m.Unambiguous f → (Filter.truth (c.database.frame t) old f).holds = true)
    (rewriting : m.Rewriting c t ((t.definition.record old).locator f) data result d) :
    ∃ r ∈ t.rows, ∃ cells, t.definition.record r = t.definition.record old ∧
      (m.Unambiguous f → (Filter.truth (c.database.frame t) r f).holds = true) ∧
      m.Rewrites c d t f data r cells result := by
  by_cases identifies : t.definition.Identifies old
  · rw [identifies.locator_record regular.regular (regular.fits old hold)] at rewriting
    cases rewriting with
    | missed finds' =>
      obtain ⟨r, -, hnone⟩ := finds'.of_key regular hold identifies known
      cases hnone
    | @written old' _ cells _ mem finds' _ rewrites =>
      obtain ⟨r, hr, hrecord⟩ := finds'.of_key regular hold identifies known
      have hmem := mem_namesakes_of_record regular identifies hr mem (Option.some.inj hrecord)
      exact ⟨old, hold, cells, rfl, holds, rewrites.of_namesake identifies hmem⟩
  · rw [Definition.locator_record_of_not identifies regular.regular (regular.fits old hold)]
      at rewriting
    cases rewriting with
    | missed finds' => cases finds.unique finds'
    | @written old' d cells result mem finds' holds' rewrites =>
      have hrecord := Option.some.inj (finds'.unique finds)
      exact ⟨old', mem, cells, hrecord, holds', rewrites⟩

/-- What an upsert that has a row to change may come to by way of a connection. -/
inductive Overwriting (m : Model) (c : Connection) (t : Table) (f : Filter) (data : Record)
    (old : Row) : Record → Connection → Prop
  | kept (nothing : data.hasAssignments = false) :
      Overwriting m c t f data old (t.definition.record old) c
  | written {d : Connection} {cells : List (String × Scalar)} {result : Option Record}
      (something : data.hasAssignments = true)
      (rewrites : m.Rewrites c d t f data old cells result) :
      Overwriting m c t f data old (result.getD (t.definition.record old)) d

theorem overwriting_of_upsertHeld {inner : Handle}
    (regular : s.site.connection.database.Regular)
    (known : s.site.connection.database.table? m.table = some t) (hb : s.behind = [])
    (found : ¬ m.Finds s.site.connection f none) {fresh : String} {create record : Record}
    (hrun : s.run ((m.through inner).upsertHeld fresh f create data).run = (.ok record, u)) :
    ∃ r ∈ t.rows, m.Finds s.site.connection f (some (t.definition.record r)) ∧
      (m.Unambiguous f →
        (Filter.truth (s.site.connection.database.frame t) r f).holds = true) ∧
      m.Overwriting s.site.connection t f data r record u.site.connection := by
  obtain ⟨row, v, hfind, hrest⟩ := Session.run_op_bind_ok hrun
  obtain ⟨finds, -, hv, -, hbv⟩ := findUnique_ok hb hfind
  cases row with
  | none => exact absurd finds.of_through found
  | some row =>
    obtain ⟨old, hold, rfl, holds⟩ := finds.of_through.exists_row known
    by_cases hdata : data.hasAssignments = true
    · simp only [if_pos hdata] at hrest
      obtain ⟨result, w, hchange, hdone⟩ := Session.run_op_bind_ok hrest
      obtain ⟨rfl, rfl⟩ := Session.run_pure_ok hdone
      have htable := regular.tables t (Database.mem_of_table? known)
      rw [← hv] at regular known finds holds ⊢
      obtain ⟨-, -, rewriting⟩ :=
        rewriting_of_update (m := m.through inner) regular known hbv hchange
      obtain ⟨r, hr, cells, hrecord, holds', rewrites⟩ :=
        rewriting.of_locator (m := m.through inner) htable known hold finds holds
      rw [← hrecord] at finds ⊢
      exact ⟨r, hr, finds.of_through, holds', .written hdata rewrites.of_through⟩
    · simp only [if_neg hdata] at hrest
      obtain ⟨rfl, rfl⟩ := Session.run_pure_ok hrest
      rw [hv]
      exact ⟨old, hold, finds.of_through, holds, .kept (Bool.not_eq_true _ ▸ hdata)⟩

theorem overwriting_of_upsert (regular : s.site.connection.database.Regular)
    (known : s.site.connection.database.table? m.table = some t) (hb : s.behind = [])
    (found : (s.run (m.findUnique { filter := f }).run).1 ≠ .ok none) {fresh : String}
    {create record : Record}
    (hrun : s.run (m.upsert fresh f create data).run = (.ok record, u)) :
    s.Reaches m.handle ∧ s.Ready ∧ ∃ r ∈ t.rows,
      m.Finds s.site.connection f (some (t.definition.record r)) ∧
      (m.Unambiguous f →
        (Filter.truth (s.site.connection.database.frame t) r f).holds = true) ∧
      m.Overwriting s.site.connection t f data r record u.site.connection := by
  rw [upsert_eq] at hrun
  obtain ⟨reaches, v, w, hv, hbv, hheld, hu, -⟩ := Session.run_hold_ok hrun
  have isOpen : s.site.isOpen = true := by
    obtain ⟨row, x, hfind, -⟩ := Session.run_op_bind_ok hheld
    rw [← hv]
    exact (findUnique_ok (hbv.trans hb) hfind).2.1.2
  have found : ¬ m.Finds s.site.connection f none := fun finds =>
    found (finds.run reaches hb isOpen)
  rw [← hv] at regular known found
  have overwriting := overwriting_of_upsertHeld regular known (hbv.trans hb) found hheld
  rw [hv, ← hu] at overwriting
  exact ⟨reaches, ⟨isOpen, hb⟩, overwriting⟩

def changeKind : Command :=
  .update "tags" [("k", .text "c")] (kindIs "a")

def otherTags : Connection where
  database := { tables := [⟨tagTable, [⟨1, [.text "c", .integer 1]⟩, ⟨2, [.text "c", .integer 2]⟩,
    ⟨3, [.text "b", .integer 3]⟩]⟩] }
  changes := 2
  total := 2

theorem execute_changeKind :
    tagStore.site.connection.execute changeKind = (.ok { count := 2 }, otherTags) := by
  let rows : List Row := [⟨1, [.text "c", .integer 1]⟩, ⟨2, [.text "c", .integer 2]⟩,
    ⟨3, [.text "b", .integer 3]⟩]
  have hsort : Definition.inOrder rows = rows := List.mergeSort_of_pairwise (by decide)
  have hopen : tagStore.site.connection.execute changeKind =
      (.ok { count := 2 }, tagStore.site.connection.written
        { tables := [⟨tagTable, Definition.inOrder rows⟩] } 2) := rfl
  rw [hopen, hsort]
  rfl

theorem finds_changedKind : tagModel.Finds otherTags (withKind "a") none := by
  let k := Command.query .everything "tags" (kindIs "a") [] { take := some 1 }
  obtain ⟨a, ha⟩ : ∃ a, (otherTags.execute k).1 = .ok a := ⟨_, rfl⟩
  have finds := finds_kind ha
  have literal : k.Literal := Command.literal_of_free
    (show ∀ name ∈ ["tags", "k"], Sql.isKeyword name.toList = false by decide)
  rcases Connection.head_chosen (t := ⟨tagTable, _⟩) literal rfl ha with ⟨-, hhead⟩ | ⟨r, hr, -⟩
  · rwa [hhead] at finds
  · cases hr

theorem run_update_kind :
    (tagStore.run (tagModel.update (withKind "a") [("k", .text "c")]).run).1 = .ok none := by
  obtain ⟨r, hr, hfound⟩ := findUnique_kind
  have hanswer : (tagStore.site.connection.execute changeKind).1 = .ok { count := 2 } :=
    congrArg Prod.fst execute_changeKind
  have hleft : (tagStore.site.connection.execute changeKind).2 = otherTags :=
    congrArg Prod.snd execute_changeKind
  have hk : Command.assignment tagModel.table [("k", .text "c")] (kindIs "a") =
      .ok changeKind := rfl
  have hnext := finds_changedKind
  rw [← hleft, ← locator_kind hr "a"] at hnext
  exact update_some rfl hfound rfl rfl (conditions_kind hr "a") hk hanswer hnext

/-- An update that answers none located no row, and asked for no more than that, or the row has
no identity and the filter finds nothing any more. Otherwise it answers the record of a row of
the same identity as it is after the write or, if there is none, what the filter finds now.
An upsert that has a row to change answers the same, but where that is none it answers the row
as it was. -/
theorem update_rewrites_meant (regular : s.site.connection.database.Regular)
    (known : s.site.connection.database.table? m.table = some t) (hb : s.behind = [])
    (f : Filter) (data : Record) :
    (∀ result u, s.run (m.update f data).run = (.ok result, u) →
      (m.LocatesNone s t f ∧ result = none ∧ u.site.connection = s.site.connection ∧
        u.site.executed ≤ s.site.executed + 1) ∨
      ∃ old cells, m.Locates s t f old ∧
        m.Rewrites s.site.connection u.site.connection t f data old cells result ∧
        (¬ t.definition.Identifies old →
          (u.run (m.findUnique { filter := f }).run).1 = .ok result)) ∧
    (m.LocatesNone s t f → data.hasAssignments = true → m.checkData data = .ok () →
      (s.run (m.update f data).run).1 = .ok none) ∧
    (∀ fresh create record u, s.run (m.upsert fresh f create data).run = (.ok record, u) →
      (s.run (m.findUnique { filter := f }).run).1 ≠ .ok none →
      ∃ old, m.Locates s t f old ∧
        (data.hasAssignments = false ∧ record = t.definition.record old ∧
            u.site.connection = s.site.connection ∨
          data.hasAssignments = true ∧ ∃ cells result,
            m.Rewrites s.site.connection u.site.connection t f data old cells result ∧
            (¬ t.definition.Identifies old →
              (u.run (m.findUnique { filter := f }).run).1 = .ok result) ∧
            record = result.getD (t.definition.record old))) := by
  -- The task can go on with a lookup, whatever was done.
  have reread {v : Session} (follows : s.Follows (fun _ _ => True) v) (reaches : s.Reaches m.handle)
      (ready : s.Ready) {result : Option Record} (finds : m.Finds v.site.connection f result) :
      (v.run (m.findUnique { filter := f }).run).1 = .ok result :=
    finds.run (follows.reaches reaches) follows.behind (follows.ready ready).isOpen
  refine ⟨fun result u hrun => ?_, fun none hdata hcheck =>
    update_none hb none.answered hdata hcheck, fun fresh create record u hrun found => ?_⟩
  · have follows : s.Follows (fun _ _ => True) (s.run (m.update f data).run).2 :=
      follows_update (fun _ => trivial) (fun _ _ => trivial) (fun _ _ _ => trivial) hb
    rw [hrun] at follows
    obtain ⟨reaches, ready, rewriting⟩ := rewriting_of_update regular known hb hrun
    generalize hd : u.site.connection = d at rewriting
    cases rewriting with
    | missed finds =>
      exact .inl ⟨finds.locates_none known reaches ready, rfl, rfl,
        executed_update_none hb finds hrun⟩
    | written mem finds holds rewrites =>
      refine .inr ⟨_, _, finds.locates_row reaches ready mem holds, rewrites, fun anonymous => ?_⟩
      exact reread follows reaches ready (hd ▸ rewrites.anonymous anonymous)
  · have follows : s.Follows (fun _ _ => True) (s.run (m.upsert fresh f create data).run).2 :=
      follows_upsert (fun _ => trivial) (fun _ _ => trivial) (fun _ _ _ => trivial) hb fresh found
    rw [hrun] at follows
    obtain ⟨reaches, ready, old, mem, finds, holds, overwriting⟩ :=
      overwriting_of_upsert regular known hb found hrun
    refine ⟨old, finds.locates_row reaches ready mem holds, ?_⟩
    generalize hd : u.site.connection = d at overwriting
    cases overwriting with
    | kept nothing => exact .inl ⟨nothing, rfl, rfl⟩
    | written something rewrites =>
      refine .inr ⟨something, _, _, rewrites, fun anonymous => ?_, rfl⟩
      exact reread follows reaches ready (hd ▸ rewrites.anonymous anonymous)

theorem update_rewrites_meant_kind :
    ∃ old cells u, tagStore.run (tagModel.update (withKind "a") [("k", .text "c")]).run =
        (.ok none, u) ∧
      tagModel.Locates tagStore threeTags (withKind "a") old ∧
      tagModel.Rewrites tagStore.site.connection u.site.connection threeTags (withKind "a")
        [("k", .text "c")] old cells none ∧
      (u.run (tagModel.findUnique { filter := withKind "a" }).run).1 = .ok none := by
  obtain ⟨changed, -, -⟩ := update_rewrites_meant (m := tagModel) regular_tags (t := threeTags)
    rfl rfl (withKind "a") [("k", .text "c")]
  obtain ⟨r, -, hfound⟩ := findUnique_kind
  rcases changed none _ (Prod.ext run_update_kind rfl) with
    ⟨hnone, -⟩ | ⟨old, cells, located, rewrites, reread⟩
  · cases hnone.answered.symm.trans hfound
  · exact ⟨old, cells, _, Prod.ext run_update_kind rfl, located, rewrites,
      reread (anonymous_tags old)⟩

/-- An update that answers none may have changed the row that a lookup answers. -/
theorem update_answers_none :
    ∃ record u, (tagStore.run (tagModel.findUnique { filter := withKind "a" }).run).1 =
        .ok (some record) ∧
      tagStore.run (tagModel.update (withKind "a") [("k", .text "c")]).run = (.ok none, u) ∧
      u.site.connection.changes = 2 := by
  obtain ⟨r, -, hfound⟩ := findUnique_kind
  obtain ⟨u, hrun⟩ : ∃ u, tagStore.run (tagModel.update (withKind "a") [("k", .text "c")]).run =
      (.ok none, u) := ⟨_, Prod.ext run_update_kind rfl⟩
  refine ⟨_, u, hfound, hrun, ?_⟩
  obtain ⟨reaches, ready, rewriting⟩ :=
    rewriting_of_update regular_tags (t := threeTags) rfl rfl hrun
  generalize u.site.connection = d at rewriting ⊢
  cases rewriting with
  | missed finds => cases (finds.run reaches rfl rfl).symm.trans hfound
  | @written old d cells result mem _ _ rewrites =>
    have hchosen := chosen_locator tagStore.site.connection.database
      (regular_tags.tables threeTags List.mem_cons_self) mem (conditions_kind mem "a")
    rw [(rewrites.writes (.inr ⟨unambiguous_kind "a", by decide⟩)).2, ← hchosen]
    rfl

end Model

end Relata
