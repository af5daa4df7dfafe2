import Relata.Proofs.Sql.Commands
import Relata.Proofs.Store.Connection
import Relata.Proofs.Store.Rows

/-! # Effects on a row

What a command that succeeds does to a connection, where it finds a row by its identity or
adds one. Whether its text is read or not makes no difference for these commands.
-/

namespace Relata

namespace Command

theorem Definite.verb {k : Command} (definite : k.Definite) : ∃ verb, k.verb? = some verb := by
  cases definite <;> exact ⟨_, rfl⟩

end Command

namespace Connection

variable {c d : Connection} {k : Command} {a : Answer} {table : String}

theorem run_ok (h : (c.run k).1 = .ok a) : c.run? k = .ok (a, (c.run k).2) := by
  rw [run] at h ⊢
  cases hk : c.run? k with
  | ok r =>
    rw [hk] at h
    cases h
    rfl
  | error r =>
    rw [hk] at h
    cases h

theorem runLimited_ok (h : (c.runLimited k).1 = .ok a) :
    c.run? k = .ok (a, (c.runLimited k).2) := by
  rw [runLimited] at h ⊢
  cases hlimits : k.checkLimits with
  | ok _ =>
    rw [hlimits] at h
    exact run_ok h
  | error r =>
    rw [hlimits] at h
    cases h

/-- What is carried out is a command on data itself, or what its text is read as if one of
its names is a keyword. -/
theorem execute_ok {verb : String} (hk : k.verb? = some verb) (h : (c.execute k).1 = .ok a) :
    ∃ k', c.run? k' = .ok (a, (c.execute k).2) ∧
      (k' = k ∨ (∃ name ∈ k.names, Sql.isKeyword name.toList = true) ∧
        Sql.read k.statement = .ok (some k')) := by
  rw [execute] at h ⊢
  split at h
  · next names =>
    rw [if_pos names]
    rw [runText] at h ⊢
    cases hr : Sql.read k.statement with
    | error r =>
      rw [hr] at h
      cases h
    | ok read =>
      rw [hr] at h
      cases read with
      | none => exact absurd hr (Command.read_ne_none hk)
      | some k' => exact ⟨k', runLimited_ok h, .inr ⟨List.any_eq_true.mp names, rfl⟩⟩
  · next names =>
    rw [if_neg names]
    exact ⟨k, runLimited_ok h, .inl rfl⟩

theorem execute_definite (definite : k.Definite) (h : (c.execute k).1 = .ok a) :
    c.run? k = .ok (a, (c.execute k).2) := by
  obtain ⟨verb, hverb⟩ := definite.verb
  obtain ⟨k', hrun, rfl | ⟨-, hread⟩⟩ := execute_ok hverb h
  · exact hrun
  · rwa [definite.eq_of_read hread] at hrun

theorem query_of_run? {p : Projection} {cs : List Condition} {order : Order} {page : Page}
    (h : c.run? (.query p table cs order page) = .ok (a, d)) :
    c.database.query p table cs order page = .ok a.rows := by
  obtain ⟨rows, hrows, hdone⟩ := bind_eq_ok.mp h
  cases hdone
  exact hrows

theorem execute_select {cs : List Condition} {order : Order} {page : Page}
    (plain : Text.PlainName table.toList)
    (h : (c.execute (.query .everything table cs order page)).1 = .ok a) :
    ∃ cs' order' page', c.database.query .everything table cs' order' page' = .ok a.rows ∧
      ((∀ name ∈ (Command.query .everything table cs order page).names,
        Sql.isKeyword name.toList = false) → cs' = cs ∧ order' = order ∧ page' = page) := by
  obtain ⟨k', hrun, rfl | ⟨⟨name, hname, hkeyword⟩, hread⟩⟩ := execute_ok rfl h
  · exact ⟨cs, order, page, query_of_run? hrun, fun _ => ⟨rfl, rfl, rfl⟩⟩
  · obtain ⟨cs', order', page', rfl⟩ := Command.query_of_read plain hread
    refine ⟨cs', order', page', query_of_run? hrun, fun names => ?_⟩
    rw [names name hname] at hkeyword
    cases hkeyword

theorem execute_page {t : Table} {cs : List Condition} {order : Order} {page : Page}
    (plain : Text.PlainName table.toList) (known : c.database.table? table = some t)
    (free : ∀ name ∈ (Command.query .everything table cs order page).names,
      Sql.isKeyword name.toList = false)
    (h : (c.execute (.query .everything table cs order page)).1 = .ok a) :
    ∃ rows, rows.Perm (t.rows.filter (Condition.selects (c.database.frame t) cs)) ∧
      a.rows = (page.cut rows).map t.definition.record := by
  obtain ⟨cs', order', page', hquery, hsame⟩ := execute_select plain h
  obtain ⟨rfl, rfl, rfl⟩ := hsame free
  exact Database.query_page_ok known hquery

section

variable {t : Table} {r : Row} {cells : List (String × Scalar)}

theorem execute_row {s : Scalar} (plain : Text.PlainName table.toList)
    (ht : c.database.table? table = some t)
    (hfilter : t.rows.filter (Condition.selects (c.database.frame t) (Condition.keyed s)) = [r])
    (h : (c.execute (.query .everything table (Condition.keyed s) [] { take := some 1 })).1 =
      .ok a) : a.rows = [t.definition.record r] := by
  exact Database.query_row ht hfilter (query_of_run? (execute_definite (.select plain s) h))

/-- A row is added. -/
theorem execute_insert (definite : (Command.insert table cells).Definite)
    (ht : c.database.table? table = some t) (h : (c.execute (.insert table cells)).1 = .ok a) :
    ∃ number, (∀ e ∈ cells, t.definition.holds e.1 = true) ∧
      t.definition.newNumber t.rows cells = .ok number ∧
      (c.execute (.insert table cells)).2 =
        c.written (c.database.setRows table (Definition.place t.rows
          (t.definition.newRow c.database.now number cells))) 1 (some number) := by
  obtain ⟨db, hdb, hsettle⟩ := bind_eq_ok.mp (execute_definite definite h)
  obtain ⟨u, number, hu, held, hnumber, rfl⟩ := Database.insert_ok hdb
  cases (Database.writable_eq ht).symm.trans hu
  have hadded : c.database.newNumber? table cells = some number := by
    simp only [Database.newNumber?, ht, hnumber, Except.toOption]
  exact ⟨number, held, hnumber, hadded ▸ (settle_ok hsettle).2⟩

variable (keyed : t.Keyed) (hr : r ∈ t.rows)

include keyed hr

/-- Of the row of an identity the given cells are changed, and of no other row. -/
theorem execute_update
    (definite : (Command.update table cells
      (Condition.keyed (t.definition.cell r Record.key))).Definite)
    (ht : c.database.table? table = some t) (covers : t.definition.Covers cells)
    (h : (c.execute (.update table cells
      (Condition.keyed (t.definition.cell r Record.key)))).1 = .ok a) :
    ∃ new others rows, t.definition.Puts cells r new ∧ t.rows.Perm (r :: others) ∧
      rows.Perm (new :: others) ∧
      (c.execute (.update table cells
        (Condition.keyed (t.definition.cell r Record.key)))).2 =
          c.written (c.database.setRows table rows) 1 := by
  obtain ⟨⟨db, n⟩, hdb, hsettle⟩ := bind_eq_ok.mp (execute_definite definite h)
  obtain ⟨number, others, rows, hnumber, hold, hnew, rfl, rfl⟩ :=
    Database.update_row ht keyed hr hdb
  exact ⟨_, others, rows, Definition.puts_changedRow keyed.regular (keyed.fits r hr) covers hnumber,
    hold, hnew, (settle_ok hsettle).2⟩

/-- The row of an identity is removed, and no other row. -/
theorem execute_delete (plain : Text.PlainName table.toList)
    (ht : c.database.table? table = some t) (uncascaded : c.database.Uncascaded)
    (h : (c.execute (.delete table
      (Condition.keyed (t.definition.cell r Record.key)))).1 = .ok a) :
    ∃ others rows, t.rows.Perm (r :: others) ∧ rows.Perm others ∧
      (c.execute (.delete table (Condition.keyed (t.definition.cell r Record.key)))).2 =
        c.written (c.database.setRows table rows) 1 := by
  obtain ⟨⟨db, n⟩, hdb, hsettle⟩ := bind_eq_ok.mp (execute_definite (.delete plain _) h)
  obtain ⟨others, rows, hold, hnew, rfl, rfl⟩ := Database.delete_row ht keyed uncascaded hr hdb
  exact ⟨others, rows, hold, hnew, (settle_ok hsettle).2⟩

end

end Connection

end Relata
