import Relata.Proofs.Store.Places
import Relata.Proofs.Store.Sorting

/-! # Rows that are found again

A row that was found is found again by its identity. Where it has none, what it was found by
has to do, and where its identity is repeated, it is not the only one: a write goes to all of
the rows that are meant.
-/

namespace Relata

open Std Text

namespace Definition

variable {d : Definition} {row : Row}

instance : Decidable (d.Identifies row) :=
  decidable_of_iff
    ((∃ c ∈ d.columns, c.name = Record.key) ∧ (d.cell row Record.key).isNull = false)
    ⟨fun h => ⟨h.1, h.2⟩, fun h => ⟨h.column, h.present⟩⟩

end Definition

/-! ## The rows that are meant -/

namespace Table

variable {t : Table} {r r' : Row}

def namesakes (t : Table) (row : Row) : List Row :=
  t.rows.filter fun other =>
    (t.definition.cell other Record.key).order (t.definition.cell row Record.key) == .eq

theorem mem_namesakes_self (hr : r ∈ t.rows) : r ∈ t.namesakes r := by
  refine List.mem_filter.mpr ⟨hr, ?_⟩
  rw [beq_iff_eq]
  exact ReflCmp.compare_self

theorem identifies_of_mem (identifies : t.definition.Identifies r) (h : r' ∈ t.namesakes r) :
    t.definition.Identifies r' := by
  refine ⟨identifies.column, ?_⟩
  have heq := beq_iff_eq.mp (List.mem_filter.mp h).2
  have hpresent := identifies.present
  -- Nothing is equal to null but null.
  revert heq hpresent
  cases t.definition.cell r' Record.key <;> cases t.definition.cell r Record.key <;>
    simp [Scalar.isNull, Scalar.order, Scalar.rank]

theorem namesakes_eq_of_mem (h : r' ∈ t.namesakes r) : t.namesakes r' = t.namesakes r := by
  have heq := beq_iff_eq.mp (List.mem_filter.mp h).2
  refine List.filter_congr fun other _ => ?_
  rw [TransCmp.congr_right heq]

end Table

namespace Database

variable {db : Database} {t : Table} {f : Filter} {r : Row}

/-- The rows that a write goes to after a filter found a row: those of its identity or, if it
has none, all rows that the filter holds of. -/
def meant (db : Database) (t : Table) (f : Filter) (row : Row) : List Row :=
  if t.definition.Identifies row then t.namesakes row
  else t.rows.filter fun other => (Filter.truth (db.frame t) other f).holds

theorem mem_meant (hr : r ∈ t.rows)
    (holds : ¬ t.definition.Identifies r → (Filter.truth (db.frame t) r f).holds = true) :
    r ∈ db.meant t f r := by
  rw [meant]
  split
  · exact t.mem_namesakes_self hr
  · next anonymous => exact List.mem_filter.mpr ⟨hr, holds anonymous⟩

theorem chosen_keyed (db : Database) (regular : t.Regular) (hr : r ∈ t.rows)
    (identifies : t.definition.Identifies r) :
    db.chosen t (Condition.keyed (t.definition.cell r Record.key)) = t.namesakes r :=
  List.filter_congr fun row _ => regular.selects_keyed rfl hr identifies row

theorem chosen_rewritten (db' : Database) (regular : t.Regular) (hr : r ∈ t.rows)
    (identifies : t.definition.Identifies r) {cells : List (String × Scalar)}
    (apart : ∀ e ∈ cells, ¬ t.definition.SamePlace e.1 Record.key) {rows : List Row}
    (hrows : rows.Perm ((t.namesakes r).map (t.definition.rewritten cells) ++
      db.unchosen t (Condition.keyed (t.definition.cell r Record.key)))) :
    (db'.chosen { t with rows } (Condition.keyed (t.definition.cell r Record.key))).Perm
      ((t.namesakes r).map (t.definition.rewritten cells)) := by
  let found := Condition.selects (db'.frame { t with rows })
    (Condition.keyed (t.definition.cell r Record.key))
  have hselects (row : Row) : found row = _ :=
    regular.selects_keyed (f := db'.frame { t with rows }) rfl hr identifies row
  have hfound : ((t.namesakes r).map (t.definition.rewritten cells)).filter found =
      (t.namesakes r).map (t.definition.rewritten cells) :=
    List.filter_eq_self.mpr <| List.forall_mem_map.mpr fun row hrow => by
      obtain ⟨hmem, heq⟩ := List.mem_filter.mp hrow
      rw [hselects, Definition.cell_rewritten_key regular.regular (regular.fits row hmem) apart]
      exact heq
  have hothers : (db.unchosen t (Condition.keyed (t.definition.cell r Record.key))).filter found =
      [] :=
    List.filter_eq_nil_iff.mpr fun row hrow => by
      have hother := (List.mem_filter.mp hrow).2
      rw [regular.selects_keyed rfl hr identifies] at hother
      rw [hselects]
      simpa using hother
  have hperm := hrows.filter found
  rwa [List.filter_append, hfound, hothers, List.append_nil] at hperm

end Database

/-! ## Commands that are carried out as they stand -/

/-- A command that is carried out as it stands, if it is carried out at all. -/
def Command.Literal (k : Command) : Prop :=
  ∀ (c : Connection) (a : Answer), (c.execute k).1 = .ok a → c.run? k = .ok (a, (c.execute k).2)

theorem Command.literal_of_only {k : Command} {verb : String} (hk : k.verb? = some verb)
    (only : ∀ k', Sql.read k.statement = .ok (some k') → k' = k) : k.Literal := by
  intro c a h
  obtain ⟨k', hrun, rfl | ⟨-, hread⟩⟩ := Connection.execute_ok hk h
  · exact hrun
  · rwa [only k' hread] at hrun

theorem Command.Definite.literal {k : Command} (definite : k.Definite) : k.Literal := by
  obtain ⟨verb, hverb⟩ := definite.verb
  exact literal_of_only hverb fun _ hread => definite.eq_of_read hread

theorem Command.literal_of_free {k : Command}
    (free : ∀ name ∈ k.names, Sql.isKeyword name.toList = false) : k.Literal := by
  intro c a h
  rw [Connection.execute_of_free free] at h ⊢
  exact Connection.runLimited_ok h

namespace Connection

variable {c : Connection} {table : String} {t : Table} {cs : List Condition} {a : Answer}

theorem head_chosen
    (literal : (Command.query .everything table cs [] { take := some 1 }).Literal)
    (known : c.database.table? table = some t)
    (h : (c.execute (.query .everything table cs [] { take := some 1 })).1 = .ok a) :
    (c.database.chosen t cs = [] ∧ a.rows.head? = none) ∨
      ∃ r ∈ c.database.chosen t cs, a.rows.head? = some (t.definition.record r) := by
  obtain ⟨rows, hperm, hrows⟩ := Database.query_page_ok known (query_of_run? (literal c a h))
  have hcut : a.rows = (rows.take 1).map t.definition.record := hrows
  rw [hcut]
  cases rows with
  | nil => exact .inl ⟨hperm.symm.eq_nil, rfl⟩
  | cons r rest => exact .inr ⟨r, hperm.mem_iff.mp List.mem_cons_self, rfl⟩

theorem remove_chosen (literal : (Command.delete table cs).Literal)
    (known : c.database.table? table = some t) (uncascaded : c.database.Uncascaded)
    (h : (c.execute (.delete table cs)).1 = .ok a) :
    (c.execute (.delete table cs)).2 =
      c.written (c.database.setRows table (c.database.unchosen t cs))
        (c.database.chosen t cs).length := by
  obtain ⟨⟨db, n⟩, hdb, hsettle⟩ := bind_eq_ok.mp (literal c a h)
  obtain ⟨u, hu, rfl, hrest⟩ := Database.delete_ok hdb
  cases (Database.writable_eq known).symm.trans hu
  rw [(settle_ok hsettle).2, hrest]
  rw [Database.cascade_eq (uncascaded.setRows _), ite_self]
  rfl

theorem rewrite_chosen {cells : List (String × Scalar)}
    (literal : (Command.update table cells cs).Literal)
    (known : c.database.table? table = some t)
    (h : (c.execute (.update table cells cs)).1 = .ok a) :
    ∃ rows, rows.Perm ((c.database.chosen t cs).map (t.definition.rewritten cells) ++
        c.database.unchosen t cs) ∧
      (c.execute (.update table cells cs)).2 =
        c.written (c.database.setRows table rows) (c.database.chosen t cs).length := by
  obtain ⟨⟨db, n⟩, hdb, hsettle⟩ := bind_eq_ok.mp (literal c a h)
  obtain ⟨u, rows, hu, hchange, rfl⟩ := Database.update_ok hdb
  cases (Database.writable_eq known).symm.trans hu
  obtain ⟨rfl, rfl⟩ := Definition.changeRows_ok hchange
  rw [Nat.zero_add] at hsettle
  exact ⟨_, (List.mergeSort_perm _ _).trans (perm_map_filter _ _ _), (settle_ok hsettle).2⟩

end Connection

end Relata
