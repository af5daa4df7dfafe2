import Relata.Proofs.Model.SingleRow
import Relata.Proofs.Store.Selection

/-! # Operations on the rows of a filter

What a filter means does not depend on what is done with the rows. Those that are found by it
are also the rows that are counted, changed and removed by it.
-/

namespace Relata

open Text

namespace Model

variable {m : Model} {s u : Session} {t : Table} {f : Filter} {cs : List Condition}
  {records : List Record}

/-- Data that a table takes: they set something, their names are those of columns or of the
number of a row and no keywords, and only a number is set for the number of a row. -/
structure Sets (m : Model) (t : Table) (data : Record) (cells : List (String × Scalar)) :
    Prop where
  some : data.hasAssignments = true
  checked : m.checkData data = .ok ()
  bound : Command.cells (data.erase Record.key) = .ok cells
  held : ∀ cell ∈ cells, t.definition.holds cell.1 = true
  free : ∀ cell ∈ cells, Sql.isKeyword cell.1.toList = false
  numbers : t.definition.Numbers cells

theorem findMany_ok (hrun : s.run (m.findMany { filter := f }).run = (.ok records, u)) :
    m.checkFilter f = .ok () ∧ s.run (m.select f [] {}).run = (.ok records, u) := by
  obtain ⟨_, hcheck, hrun⟩ := Session.run_check_ok hrun
  obtain ⟨_, -, hrest⟩ := bind_eq_ok.mp hcheck
  obtain ⟨_, hfilter, -⟩ := bind_eq_ok.mp hrest
  obtain ⟨rows, v, hselect, hdone⟩ := Session.run_op_bind_ok hrun
  rw [complete_filter] at hdone
  obtain ⟨rfl, rfl⟩ := Session.run_pure_ok hdone
  exact ⟨hfilter, hselect⟩

theorem findMany_of_answer (named : checkedName m.table = .ok m.table)
    (reaches : s.Reaches m.handle) (ready : s.Ready) (checked : m.checkFilter f = .ok ())
    (hcs : Filter.conditions f = .ok cs) {a : Answer}
    (h : (s.site.connection.execute (.query .everything m.table cs [] {})).1 = .ok a) :
    (s.run (m.findMany { filter := f }).run).1 = .ok a.rows := by
  have hcommand : Command.select m.table cs [] {} = .ok (.query .everything m.table cs [] {}) := by
    rw [Command.select, named]
    rfl
  have hreply : (s.run (m.perform (.query .everything m.table cs [] {})).run).1 = _ :=
    Session.run_perform_reply reaches ready.behind ready.isOpen (by simp)
  rw [Connection.perform, h] at hreply
  have hselect : (s.run (m.select f [] {}).run).1 = .ok a.rows := by
    rw [select, Session.run_check hcs, Session.run_check hcommand, Session.run_op_map]
    exact congrArg (Except.map _) hreply
  rw [findMany, Session.run_check (checkFind_of_checkFilter checked),
    Session.run_op_bind_of_ok hselect, complete_filter]
  rfl

section

variable {cs' : List Condition} (chooses : s.site.connection.Chooses m.table t cs cs')
  (named : checkedName m.table = .ok m.table) (reaches : s.Reaches m.handle) (ready : s.Ready)
  (checked : m.checkFilter f = .ok ()) (hcs : Filter.conditions f = .ok cs)

include chooses named reaches ready checked hcs

theorem run_count (small : t.rows.length ≤ Int64.maxValue.toNatClampNeg) :
    (s.run (m.count f).run).1 = .ok (s.site.connection.database.chosen t cs').length := by
  have hcommand : Command.counting m.table cs =
      .ok (.query (.measures [.ofRows]) m.table cs [] {}) := by
    rw [Command.counting, named]
    rfl
  have hreply : (s.run (m.perform (.query (.measures [.ofRows]) m.table cs [] {})).run).1 = _ :=
    Session.run_perform_reply reaches ready.behind ready.isOpen (by simp)
  rw [Connection.perform, chooses.execute_count] at hreply
  have hfew : (s.site.connection.database.chosen t cs').length ≤ Int64.maxValue.toNatClampNeg :=
    Nat.le_trans (List.length_filter_le _ _) small
  have hnumber : (Int64.ofNat (s.site.connection.database.chosen t cs').length).toInt.toNat =
      (s.site.connection.database.chosen t cs').length := by
    rw [Int64.toInt_ofNat_of_lt (Nat.lt_of_le_of_lt hfew (by decide)), Int.toNat_natCast]
  rw [count, Session.run_check checked, Session.run_check hcs, Session.run_check hcommand,
    Session.run_op_map, hreply]
  exact congrArg Except.ok hnumber

theorem run_updateMany {data : Record} {cells : List (String × Scalar)}
    (sets : m.Sets t data cells)
    (marks : (Command.update m.table cells cs).params.length ≤ Command.mostMarks)
    (unviolated : s.site.connection.Unviolated (.update m.table cells cs)) :
    ∃ (v : Session) (rows : List Row),
      s.run (m.updateMany f data).run =
        (.ok (s.site.connection.database.chosen t cs').length, v) ∧
      rows.Perm ((s.site.connection.database.chosen t cs').map (t.definition.rewritten cells) ++
        s.site.connection.database.unchosen t cs') ∧
      v.site.connection.database = s.site.connection.database.setRows m.table rows := by
  have hbound : Command.cells (data.filter fun e => e.1 ≠ Record.key) = .ok cells := sets.bound
  have hcommand : Command.assignment m.table data cs = .ok (.update m.table cells cs) := by
    rw [Command.assignment, named]
    simp only [Bind.bind, Except.bind, sets.some, if_true, hbound]
    rfl
  obtain ⟨-, plain⟩ := Command.names_cells sets.bound
  obtain ⟨rows, hperm, hexecute⟩ := chooses.execute_update
    (Command.cells_ne_nil sets.some sets.bound)
    (fun cell hcell => ⟨plain cell hcell, sets.free cell hcell⟩) sets.held sets.numbers marks
    unviolated
  obtain ⟨v, hv, hconnection, -⟩ := @Session.exists_run_perform s m.handle reaches ready
    (.command (.update m.table cells cs)) (by simp)
  rw [Connection.perform, hexecute] at hv hconnection
  refine ⟨v, rows, ?_, hperm, congrArg Connection.database hconnection⟩
  rw [updateMany, if_pos sets.some, Session.run_check checked, Session.run_check sets.checked,
    Session.run_check hcs, Session.run_check hcommand, Session.run_op_map, perform, hv]
  rfl

theorem run_deleteMany (uncascaded : s.site.connection.database.Uncascaded)
    (unviolated : s.site.connection.Unviolated (.delete m.table cs)) :
    ∃ v : Session,
      s.run (m.deleteMany f).run =
        (.ok (s.site.connection.database.chosen t cs').length, v) ∧
      v.site.connection.database = s.site.connection.database.setRows m.table
        (s.site.connection.database.unchosen t cs') ∧ v.Reaches m.handle ∧ v.Ready := by
  have hcommand : Command.removal m.table cs = .ok (.delete m.table cs) := by
    rw [Command.removal, named]
    rfl
  obtain ⟨v, hv, hconnection, hafter⟩ := @Session.exists_run_perform s m.handle reaches ready
    (.command (.delete m.table cs)) (by simp)
  rw [Connection.perform, chooses.execute_delete uncascaded unviolated] at hv hconnection
  refine ⟨v, ?_, congrArg Connection.database hconnection, hafter⟩
  rw [deleteMany, Session.run_check checked, Session.run_check hcs, Session.run_check hcommand,
    Session.run_op_map, perform, hv]
  rfl

end

/-- The rows that are found by a filter, without an order and a page, are those that are
counted, changed and removed by it. They are all rows of the table if the filter is empty, and
those of which it holds if no name is a keyword. What is set has to be what the table takes, with
no more marks than a statement may have, and no rule of the tables may be in the way of a
write. -/
theorem selections_agree (regular : s.site.connection.database.Regular)
    (known : s.site.connection.database.table? m.table = some t)
    (small : t.rows.length ≤ Int64.maxValue.toNatClampNeg) (hb : s.behind = [])
    (hcs : Filter.conditions f = .ok cs)
    (found : s.run (m.findMany { filter := f }).run = (.ok records, u)) :
    ∃ chosen : List Row, chosen.Sublist t.rows ∧
      records.Perm (chosen.map t.definition.record) ∧ (f = [] → chosen = t.rows) ∧
      (m.Unambiguous f → chosen = t.rows.filter fun row =>
        (Filter.truth (s.site.connection.database.frame t) row f).holds) ∧
      (s.run (m.count f).run).1 = .ok records.length ∧
      (∀ data cells, m.Sets t data cells →
        (Command.update m.table cells cs).params.length ≤ Command.mostMarks →
        s.site.connection.Unviolated (.update m.table cells cs) →
        ∃ v : Session, s.run (m.updateMany f data).run = (.ok records.length, v) ∧
          s.site.connection.database.Exchange t chosen
            (chosen.map (t.definition.rewritten cells)) v.site.connection.database ∧
          ∀ row ∈ chosen, ∀ c ∈ t.definition.columns,
            (∀ cell ∈ cells, ¬ t.definition.StandsFor cell.1 c) →
            t.definition.cell (t.definition.rewritten cells row) c.name =
              t.definition.cell row c.name) ∧
      (s.site.connection.database.Uncascaded →
        s.site.connection.Unviolated (.delete m.table cs) →
        ∃ (v : Session) (n : Nat), s.run (m.deleteMany f).run = (.ok records.length, v) ∧
          s.site.connection.database.Exchange t chosen [] v.site.connection.database ∧
          (s.run (m.count []).run).1 = .ok (n + records.length) ∧
          (v.run (m.count []).run).1 = .ok n) := by
  obtain ⟨checked, hselect⟩ := findMany_ok found
  obtain ⟨plainTable, ⟨cs', a, hcs', hanswer, rfl⟩, ⟨reaches, isOpen⟩, -, -⟩ :=
    select_ok hb hselect
  cases hcs.symm.trans hcs'
  have ready : s.Ready := ⟨isOpen, hb⟩
  have named : checkedName m.table = .ok m.table := if_pos (isPlainName_iff.mpr plainTable)
  obtain ⟨cs', chooses, whole, hrows, same⟩ := Connection.exists_chooses plainTable
    (Filter.written_conditions (fun _ _ hname => hname) hcs) known hanswer
  obtain ⟨hregular, hfits⟩ := regular.tables t (Database.mem_of_table? known)
  have hperm := s.site.connection.database.perm_chosen t cs'
  have hlength : a.rows.length = (s.site.connection.database.chosen t cs').length := by
    rw [hrows.length_eq, List.length_map]
  rw [hlength]
  refine ⟨s.site.connection.database.chosen t cs', List.filter_sublist, hrows, ?_, ?_,
    run_count chooses named reaches ready checked hcs small, ?_, ?_⟩
  · rintro rfl
    cases hcs
    rw [chooses.carries.empty rfl, Database.chosen_nil]
  · intro names
    obtain rfl := same fun name hname => by
      refine names.names hcs {} name ?_
      simpa [Command.names, Order.fields] using hname
    exact List.filter_congr fun row _ => Filter.selects_conditions hcs _ row
  · intro data cells sets marks unviolated
    obtain ⟨v, rows, hv, hnew, hdatabase⟩ :=
      run_updateMany chooses named reaches ready checked hcs sets marks unviolated
    refine ⟨v, hv, ?_, fun row hrow c hc apart => ?_⟩
    · rw [hdatabase]
      exact Database.exchange_setRows regular.distinct known hperm hnew
    · exact Definition.cell_rewritten hregular (hfits row (List.mem_of_mem_filter hrow)) hc apart
  · intro uncascaded unviolated
    obtain ⟨v, hv, hdatabase, again, goesOn⟩ :=
      run_deleteMany chooses named reaches ready checked hcs uncascaded unviolated
    have nothing : m.checkFilter [] = .ok () := by
      rw [checkFilter, Filter.fields]
      rfl
    have hbefore := run_count (.whole whole known) named reaches ready nothing rfl small
    have hleft : v.site.connection.database.table? m.table =
        some { t with rows := s.site.connection.database.unchosen t cs' } := by
      rw [hdatabase]
      exact Database.table?_setRows known _
    have hafter := run_count (.whole whole hleft) named again goesOn nothing rfl
      (Nat.le_trans (List.length_filter_le _ _) small)
    rw [Database.chosen_nil] at hbefore hafter
    refine ⟨v, (s.site.connection.database.unchosen t cs').length, hv, ?_, ?_, hafter⟩
    · rw [hdatabase]
      exact Database.exchange_setRows regular.distinct known hperm (.refl _)
    · rw [hbefore, hperm.length_eq, List.length_append, Nat.add_comm]

/-- The orders of a status are found, counted, given another status, and removed. -/
theorem selections_agree_orders :
    ∃ records u, orderStore.run (declaredOrders.findMany { filter := withStatus "A" }).run =
        (.ok records, u) ∧ records = [orderTable.record firstOrder] ∧
      ∃ chosen : List Row, records.Perm (chosen.map orderTable.record) ∧
        (orderStore.run (declaredOrders.count (withStatus "A")).run).1 = .ok records.length ∧
        (∃ v : Session, orderStore.run
            (declaredOrders.updateMany (withStatus "A") [("status", .text "B")]).run =
              (.ok records.length, v) ∧
          orderStore.site.connection.database.Exchange twoOrders chosen
            (chosen.map (orderTable.rewritten [("status", .text "B")]))
            v.site.connection.database) ∧
        ∃ (v : Session) (n : Nat),
          orderStore.run (declaredOrders.deleteMany (withStatus "A")).run =
            (.ok records.length, v) ∧
          orderStore.site.connection.database.Exchange twoOrders chosen []
            v.site.connection.database ∧
          (orderStore.run (declaredOrders.count []).run).1 = .ok (n + records.length) ∧
          (v.run (declaredOrders.count []).run).1 = .ok n := by
  have named : checkedName declaredOrders.table = .ok declaredOrders.table := rfl
  have checked : declaredOrders.checkFilter (withStatus "A") = .ok () := checkFilter_eq rfl rfl
  have hcs : Filter.conditions (withStatus "A") = .ok (statusIs "A") := rfl
  obtain ⟨a, ha⟩ : ∃ a, (orderStore.site.connection.execute
      (.query .everything "orders" (statusIs "A") [] {})).1 = .ok a := ⟨_, rfl⟩
  have hfound := findMany_of_answer named (.inr rfl) ⟨rfl, rfl⟩ checked hcs ha
  have free : ∀ name ∈ (Command.query .everything "orders" (statusIs "A") [] {}).names,
      Sql.isKeyword name.toList = false :=
    show ∀ name ∈ ["orders", "status"], Sql.isKeyword name.toList = false by decide
  obtain ⟨rows, hperm, hrows⟩ :=
    Connection.execute_page (isPlainName_iff.mp rfl) keyed_orders.known free ha
  have hfilter : twoOrders.rows.filter (Condition.selects
      (orderStore.site.connection.database.frame twoOrders) (statusIs "A")) = [firstOrder] := rfl
  have hrecords : a.rows = [orderTable.record firstOrder] := by
    rw [hfilter] at hperm
    rw [hrows, hperm.eq_singleton]
    rfl
  have sets : declaredOrders.Sets twoOrders [("status", .text "B")] [("status", .text "B")] :=
    { some := rfl
      checked := rfl
      bound := rfl
      held := by simp; rfl
      free := by simp; rfl
      numbers := by
        intro s hs
        cases hs }
  -- No write is refused at all.
  have updated : ∃ a, (orderStore.site.connection.execute
      (.update "orders" [("status", .text "B")] (statusIs "A"))).1 = .ok a := ⟨_, rfl⟩
  have removed : ∃ a, (orderStore.site.connection.execute
      (.delete "orders" (statusIs "A"))).1 = .ok a := ⟨_, rfl⟩
  have unviolated {k : Command} (h : ∃ a, (orderStore.site.connection.execute k).1 = .ok a) :
      orderStore.site.connection.Unviolated k := by
    intro r hr
    obtain ⟨a, ha⟩ := h
    cases ha.symm.trans hr
  obtain ⟨chosen, -, hchosen, -, -, counted, changed, gone⟩ :=
    selections_agree keyed_orders.regular keyed_orders.known (by decide) rfl hcs
      (Prod.ext hfound rfl)
  obtain ⟨v, hv, hexchange, -⟩ := changed _ _ sets (by decide) (unviolated updated)
  exact ⟨a.rows, _, Prod.ext hfound rfl, hrecords, chosen, hchosen, counted, ⟨v, hv, hexchange⟩,
    gone uncascaded_orders (unviolated removed)⟩

def ordersAmong (ids : List String) : Filter :=
  [.test Record.key (.among (ids.map .text))]

theorem scalars_texts (field : String) (texts : List String) :
    Test.scalars field (texts.map .text) = .ok (texts.map .text) := by
  induction texts with
  | nil => rfl
  | cons text texts ih =>
    rw [List.map_cons, Test.scalars, ih]
    rfl

theorem conditions_ordersAmong {ids : List String} (some : ids ≠ []) :
    Filter.conditions (ordersAmong ids) = .ok [.among Record.key (ids.map .text)] := by
  obtain ⟨id, ids, rfl⟩ := List.exists_cons_of_ne_nil some
  have hcondition : (Test.among ((id :: ids).map .text)).condition Record.key =
      .ok (.among Record.key ((id :: ids).map .text)) := by
    rw [Test.condition_among (by simp), scalars_texts]
    rfl
  have hname : checkedName Record.key = .ok Record.key := rfl
  rw [ordersAmong, Filter.conditions, Filter.nodeCondition?, hname]
  simp only [Bind.bind, Except.bind, hcondition]
  rfl

section

variable {ids : List String}

theorem checkFilter_ordersAmong (ids : List String) :
    declaredOrders.checkFilter (ordersAmong ids) = .ok () := by
  rw [checkFilter, ordersAmong, Filter.fields, Filter.fields]
  rfl

theorem evaluates_among (ids : List Scalar) :
    orderStore.site.connection.database.Evaluates twoOrders [.among Record.key ids] ∧
      ¬ Command.deepest < Condition.joinedHeight (Condition.heights [.among Record.key ids]) := by
  refine ⟨⟨rfl, ?_⟩, ?_⟩
  · rw [Frame.checkPatterns, if_neg]
    simp [Condition.strainsAll, Condition.strains]
  · have hheight : Condition.height (.among Record.key ids) ≤ 3 := by
      rcases ids with _ | ⟨id, _ | ⟨other, ids⟩⟩ <;> simp [Condition.height]
    exact Nat.not_lt.mpr (Nat.le_trans hheight (by decide))

theorem length_operands_among (ids : List String) :
    (Condition.operandsOfAll [.among Record.key (ids.map .text)]).length = ids.length := by
  simp [Condition.operandsOfAll, Condition.operands]

theorem findMany_ordersAmong (some : ids ≠ []) (few : ids.length ≤ Command.mostMarks) :
    ∃ records u, orderStore.run (declaredOrders.findMany { filter := ordersAmong ids }).run =
      (.ok records, u) := by
  let k := Command.query .everything "orders" [.among Record.key (ids.map .text)] [] {}
  obtain ⟨evaluates, shallow⟩ := evaluates_among (ids.map .text)
  have free : ∀ name ∈ k.names, Sql.isKeyword name.toList = false :=
    show ∀ name ∈ ["orders", "id"], Sql.isKeyword name.toList = false by decide
  have limits : k.checkLimits = .ok () := by
    rw [← length_operands_among] at few
    exact (if_neg shallow).trans (if_neg (Nat.not_lt.mpr few))
  have known : orderStore.site.connection.database.table? "orders" = .some twoOrders := rfl
  obtain ⟨rows, -, hquery⟩ := evaluates.query (p := .everything) known rfl rfl
  have hanswer : ∃ a, (orderStore.site.connection.execute k).1 = .ok a := by
    rw [Connection.execute_of_free free, Connection.runLimited, limits, Connection.run,
      Connection.run?, hquery]
    exact ⟨_, rfl⟩
  obtain ⟨a, ha⟩ := hanswer
  exact ⟨a.rows, _, Prod.ext (findMany_of_answer rfl (.inr rfl) ⟨rfl, rfl⟩
    (checkFilter_ordersAmong ids) (conditions_ordersAmong some) ha) rfl⟩

theorem updateMany_ordersAmong (some : ids ≠ []) (many : Command.mostMarks ≤ ids.length) :
    (orderStore.run (declaredOrders.updateMany (ordersAmong ids) [("status", .text "B")]).run).1 =
      .error Refusal.tooManyMarks.failure := by
  let k := Command.update "orders" [("status", .text "B")] [.among Record.key (ids.map .text)]
  obtain ⟨-, shallow⟩ := evaluates_among (ids.map .text)
  have free : ∀ name ∈ k.names, Sql.isKeyword name.toList = false :=
    show ∀ name ∈ ["orders", "status", "id"], Sql.isKeyword name.toList = false by decide
  have hparams : k.params.length = ids.length + 1 :=
    congrArg (· + 1) (length_operands_among ids)
  have limits : k.checkLimits = .error .tooManyMarks := by
    refine (if_neg shallow).trans (if_pos ?_)
    rw [hparams]
    exact Nat.lt_succ_of_le many
  have hrefused : orderStore.site.connection.execute k =
      (.error .tooManyMarks, orderStore.site.connection) := by
    rw [Connection.execute_of_free free, Connection.runLimited, limits]
  have hreply : (orderStore.run (declaredOrders.perform k).run).1 = _ :=
    Session.run_perform_reply (.inr rfl) rfl rfl (by simp)
  rw [Connection.perform, hrefused] at hreply
  have hdata : Record.hasAssignments [("status", .text "B")] = true := rfl
  have hchecked : declaredOrders.checkData [("status", .text "B")] = .ok () := rfl
  have hcommand : Command.assignment declaredOrders.table [("status", .text "B")]
      [.among Record.key (ids.map .text)] = .ok k := rfl
  rw [updateMany, if_pos hdata, Session.run_check (checkFilter_ordersAmong ids),
    Session.run_check hchecked, Session.run_check (conditions_ordersAmong some),
    Session.run_check hcommand, Session.run_op_map, hreply]
  rfl

end

/-- With as many identities as a statement has marks at most, orders are found, but they are not
changed: what is set needs a mark, too. -/
theorem updateMany_tooManyMarks :
    (∃ records u, orderStore.run (declaredOrders.findMany
        { filter := ordersAmong (List.replicate Command.mostMarks "o1") }).run =
          (.ok records, u)) ∧
      (orderStore.run (declaredOrders.updateMany
        (ordersAmong (List.replicate Command.mostMarks "o1")) [("status", .text "B")]).run).1 =
          .error Refusal.tooManyMarks.failure := by
  have hlength : (List.replicate Command.mostMarks "o1").length = Command.mostMarks :=
    List.length_replicate
  have some : List.replicate Command.mostMarks "o1" ≠ [] :=
    List.ne_nil_of_length_pos (by rw [hlength]; decide)
  exact ⟨findMany_ordersAmong some (Nat.le_of_eq hlength),
    updateMany_ordersAmong some (Nat.le_of_eq hlength.symm)⟩

end Model

end Relata
