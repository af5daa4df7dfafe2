import Relata.Proofs.Result
import Relata.Store.Database

/-! # Written databases

What a command that writes leaves of a database: other rows in its table, and in the
tables whose rows went with them. The definitions of the tables stay, and with them the
references that are checked late, if there are any.
-/

namespace Relata

open Text

theorem Definition.holds_of_checkGiven {d : Definition} {refuse : String → Refusal}
    {names : List String} (h : d.checkGiven refuse names = .ok ()) :
    ∀ n ∈ names, d.holds n = true := by
  induction names with
  | nil => exact fun n hn => nomatch hn
  | cons n names ih =>
    rw [checkGiven] at h
    split at h
    · next hn => exact List.forall_mem_cons.mpr ⟨hn, ih h⟩
    · cases h

/-- No reference of a table is left to be checked when a transaction ends. -/
def Definition.Prompt (d : Definition) : Prop :=
  ∀ r ∈ d.references, r.deferred = false

def Database.Prompt (db : Database) : Prop :=
  ∀ t ∈ db.tables, t.definition.Prompt

namespace Database

variable {db db' : Database} {table : String}

theorem broken_of_prompt (prompt : db.Prompt) : db.broken true = false := by
  rw [broken, Bool.and_eq_false_iff]
  refine .inr (List.any_eq_false.mpr fun t ht => ?_)
  have hr : t.definition.references.any (·.deferred == true) = false := by
    refine List.any_eq_false.mpr fun r hr => ?_
    simp [prompt t ht r hr]
  rw [hr, Bool.false_and]
  exact Bool.false_ne_true

theorem Prompt.of_definitions (prompt : db.Prompt)
    (h : db'.tables.map Table.definition = db.tables.map Table.definition) : db'.Prompt := by
  intro t ht
  have : t.definition ∈ db.tables.map Table.definition := h ▸ List.mem_map_of_mem ht
  obtain ⟨u, hu, hd⟩ := List.mem_map.mp this
  rw [← hd]
  exact prompt u hu

theorem definitions_setRows (name : String) (rows : List Row) :
    (db.setRows name rows).tables.map Table.definition = db.tables.map Table.definition := by
  rw [setRows, List.map_map]
  refine List.map_congr_left fun t _ => ?_
  rw [Function.comp_apply]
  split <;> rfl

theorem definitions_cascade (fuel : Nat) :
    (db.cascade fuel).tables.map Table.definition = db.tables.map Table.definition := by
  induction fuel generalizing db with
  | zero => rfl
  | succ fuel ih =>
    rw [cascade]
    split
    · rfl
    · rw [ih, List.map_map]
      rfl

theorem insert_ok {cells : List (String × Scalar)} (h : db.insert table cells = .ok db') :
    ∃ t number, db.writable table = .ok t ∧
      (∀ e ∈ cells, t.definition.holds e.1 = true) ∧
      t.definition.newNumber t.rows cells = .ok number ∧
      db' = db.setRows table
        (Definition.place t.rows (t.definition.newRow db.now number cells)) := by
  obtain ⟨t, ht, h⟩ := bind_eq_ok.mp h
  obtain ⟨_, hgiven, h⟩ := bind_eq_ok.mp h
  obtain ⟨number, hn, h⟩ := bind_eq_ok.mp h
  obtain ⟨_, _, h⟩ := bind_eq_ok.mp h
  simp only at h
  split at h
  · cases h
  · cases h
    have held := List.forall_mem_map.mp (Definition.holds_of_checkGiven hgiven)
    exact ⟨t, number, ht, held, hn, rfl⟩

theorem update_ok {cells : List (String × Scalar)} {cs : List Condition} {n : Nat}
    (h : db.update table cells cs = .ok (db', n)) :
    ∃ t rows, db.writable table = .ok t ∧
      t.definition.changeRows (Condition.selects (db.frame t) cs) cells [] t.rows 0 =
        .ok (rows, n) ∧
      db' = db.setRows table (Definition.inOrder rows) := by
  obtain ⟨t, ht, h⟩ := bind_eq_ok.mp h
  obtain ⟨_, _, h⟩ := bind_eq_ok.mp h
  obtain ⟨_, _, h⟩ := bind_eq_ok.mp h
  obtain ⟨_, _, h⟩ := bind_eq_ok.mp h
  obtain ⟨⟨rows, m⟩, hrows, h⟩ := bind_eq_ok.mp h
  simp only at h
  split at h
  · cases h
  · cases h
    exact ⟨t, rows, ht, hrows, rfl⟩

theorem delete_ok {cs : List Condition} {n : Nat} (h : db.delete table cs = .ok (db', n)) :
    ∃ t, db.writable table = .ok t ∧
      n = (t.rows.filter (Condition.selects (db.frame t) cs)).length ∧
      let rest := db.setRows table
        (t.rows.filter fun row => !Condition.selects (db.frame t) cs row)
      db' = if db.enforced then rest.cascade db.rowCount else rest := by
  obtain ⟨t, ht, h⟩ := bind_eq_ok.mp h
  obtain ⟨_, _, h⟩ := bind_eq_ok.mp h
  obtain ⟨_, _, h⟩ := bind_eq_ok.mp h
  refine ⟨t, ht, ?_⟩
  simp only at h ⊢
  generalize (if db.enforced = true then _ else _ : Database) = rest at h ⊢
  split at h
  · cases h
  · cases h
    exact ⟨rfl, rfl⟩

theorem definitions_insert {cells : List (String × Scalar)}
    (h : db.insert table cells = .ok db') :
    db'.tables.map Table.definition = db.tables.map Table.definition := by
  obtain ⟨t, number, -, -, -, rfl⟩ := insert_ok h
  exact definitions_setRows ..

theorem definitions_update {cells : List (String × Scalar)} {cs : List Condition} {n : Nat}
    (h : db.update table cells cs = .ok (db', n)) :
    db'.tables.map Table.definition = db.tables.map Table.definition := by
  obtain ⟨t, rows, -, -, rfl⟩ := update_ok h
  exact definitions_setRows ..

theorem definitions_delete {cs : List Condition} {n : Nat}
    (h : db.delete table cs = .ok (db', n)) :
    db'.tables.map Table.definition = db.tables.map Table.definition := by
  obtain ⟨t, -, -, rfl⟩ := delete_ok h
  split
  · rw [definitions_cascade, definitions_setRows]
  · exact definitions_setRows ..

theorem prompt_table {t : Table} (prompt : db.Prompt) (h : db.table table = .ok t) :
    t.definition.Prompt := by
  rw [Database.table] at h
  split at h
  · next t' ht =>
    cases h
    rcases Option.or_eq_some_iff.mp ht with ht | ⟨-, ht⟩
    · exact prompt t (List.mem_of_find?_eq_some ht)
    · rw [Catalog.table?] at ht
      split at ht
      · cases ht
        exact fun r hr => nomatch hr
      · split at ht
        · cases ht
          exact fun r hr => nomatch hr
        · cases ht
  · cases h

theorem prompt_index {name column : String} (prompt : db.Prompt)
    (h : db.index name table column = .ok db') : db'.Prompt := by
  obtain ⟨t, ht, h⟩ := bind_eq_ok.mp h
  split at h
  · cases h
    exact prompt
  · cases h
    intro u hu
    obtain ⟨v, hv, rfl⟩ := List.mem_map.mp hu
    split
    · exact fun r hr => prompt_table prompt ht r hr
    · exact prompt v hv

theorem prompt_define {d : Definition} (prompt : db.Prompt) (hd : d.Prompt) :
    (db.define d).Prompt := by
  rw [define]
  split
  · exact prompt
  · intro t ht
    rcases List.mem_append.mp ht with ht | ht
    · exact prompt t ht
    · cases List.mem_singleton.mp ht
      exact hd

def Distinct (db : Database) : Prop :=
  (db.tables.map Table.definition).Pairwise fun d e => ¬ sameFolded d.name e.name = true

theorem foldl_rowCount (ts : List Table) (n : Nat) :
    ts.foldl (fun n t => n + t.rows.length) n =
      n + ts.foldl (fun n t => n + t.rows.length) 0 := by
  induction ts generalizing n with
  | nil => rfl
  | cons t ts ih =>
    rw [List.foldl_cons, List.foldl_cons, ih, ih (0 + t.rows.length)]
    omega

/-- In a table some rows take the place of others. The other rows and tables are as before. -/
def Exchange (db : Database) (t : Table) (old new : List Row) (db' : Database) : Prop :=
  ∃ before after others rows, db.tables = before ++ t :: after ∧ t.rows.Perm (old ++ others) ∧
    rows.Perm (new ++ others) ∧ db' = { db with tables := before ++ { t with rows } :: after }

theorem exchange_setRows (distinct : db.Distinct) (ht : db.table? table = some t)
    {old new others rows : List Row} (hold : t.rows.Perm (old ++ others))
    (hnew : rows.Perm (new ++ others)) : db.Exchange t old new (db.setRows table rows) := by
  obtain ⟨hname, before, after, htables, hbefore⟩ := List.find?_eq_some_iff_append.mp ht
  refine ⟨before, after, others, rows, htables, hold, hnew, ?_⟩
  rw [Distinct, htables, List.map_append, List.map_cons] at distinct
  have hapart := (List.pairwise_cons.mp (List.pairwise_append.mp distinct).2.1).1
  have hafter : ∀ u ∈ after, sameFolded u.definition.name table = false := by
    intro u hu
    refine Bool.eq_false_iff.mpr fun hfolded => hapart _ (List.mem_map_of_mem hu) ?_
    exact sameFolded_iff.mpr ((sameFolded_iff.mp hname).trans (sameFolded_iff.mp hfolded).symm)
  have keep {us : List Table} (h : ∀ u ∈ us, sameFolded u.definition.name table = false) :
      us.map (fun u => if sameFolded u.definition.name table then { u with rows } else u) = us :=
    (List.map_congr_left fun u hu => if_neg (by simp [h u hu])).trans (List.map_id us)
  rw [setRows, htables, List.map_append, List.map_cons, keep hafter, if_pos hname,
    keep fun u hu => by simpa using hbefore u hu]

theorem perm_place (rows : List Row) (row : Row) :
    (Definition.place rows row).Perm (row :: rows) := by
  rw [Definition.place]
  refine List.perm_middle.trans (List.Perm.cons _ ?_)
  rw [List.takeWhile_append_dropWhile]

/-- Where rows take the place of others, the number of all rows changes by theirs. -/
theorem Exchange.rowCount {t : Table} {old new : List Row} (exchange : db.Exchange t old new db') :
    db'.rowCount + old.length = db.rowCount + new.length := by
  obtain ⟨before, after, others, rows, htables, hold, hnew, rfl⟩ := exchange
  have hrows := hold.length_eq
  have hrows' := hnew.length_eq
  rw [List.length_append] at hrows hrows'
  rw [Database.rowCount, Database.rowCount, htables, List.foldl_append, List.foldl_append,
    List.foldl_cons, List.foldl_cons, foldl_rowCount after,
    foldl_rowCount after (_ + t.rows.length)]
  dsimp only
  omega

theorem writable_ok {t : Table} (h : db.writable table = .ok t) : db.table? table = some t := by
  rw [writable] at h
  split at h
  · next u hu =>
    cases h
    exact hu
  · cases h
  · cases h

theorem rowCount_insert {cells : List (String × Scalar)} (distinct : db.Distinct)
    (h : db.insert table cells = .ok db') : db'.rowCount = db.rowCount + 1 := by
  obtain ⟨t, number, hwritable, -, -, rfl⟩ := insert_ok h
  have exchange : db.Exchange t [] [t.definition.newRow db.now number cells] _ :=
    exchange_setRows distinct (writable_ok hwritable) (.refl _) (perm_place _ _)
  exact exchange.rowCount

end Database

end Relata
