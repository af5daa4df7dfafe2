import Relata.Proofs.Store.Connection
import Relata.Proofs.Store.Rows

/-! # What a store keeps

The tables of a store have columns that are told apart, and rows whose cells are what the
columns keep. Every job leaves them so: those that add and change rows, those that take rows
away, and those that go back to what was before. So does every script of a task.
-/

namespace Relata

open Text

namespace Affinity

theorem toNumber_toNumber (s : Scalar) : toNumber (toNumber s) = toNumber s := by
  cases s with
  | text t =>
    cases h : Numeral.number? t with
    | none => simp only [toNumber, h]
    | some n => cases n <;> simp only [toNumber, h]
  | _ => rfl

theorem store_store (a : Affinity) (s : Scalar) : a.store (a.store s) = a.store s := by
  have hnumber := toNumber_toNumber s
  cases a with
  | text => cases s <;> rfl
  | none => rfl
  | integer =>
    simp only [store]
    generalize toNumber s = n at hnumber
    cases n with
    | real x =>
      cases h : Numeral.integral? x with
      | none => simp only [toIntegral, toNumber, h]
      | some n => simp only [toIntegral, toNumber, h]
    | text t => exact congrArg toIntegral hnumber
    | _ => rfl
  | real =>
    simp only [store]
    generalize toNumber s = n at hnumber
    cases n with
    | text t => exact congrArg toReal hnumber
    | _ => rfl

end Affinity

namespace Definition

variable {d : Definition} {row : Row} {cells : List (String × Scalar)}

theorem fits_newRow (regular : d.Regular) (now : String) (number : Int) :
    d.Fits (d.newRow now number cells) := by
  refine ⟨by rw [newRow, List.length_map], fun c hc => ?_, fun c hc hkey => ?_⟩
  · rw [regular.cell_newRow hc]
    cases hkey : d.isKey c.name with
    | true =>
      rw [if_pos rfl, regular.integers c hc hkey]
      rfl
    | false =>
      rw [if_neg Bool.false_ne_true]
      cases given? c cells with
      | none => exact regular.defaults c hc now
      | some s => exact c.affinity.store_store s
  · rw [regular.cell_newRow hc, if_pos hkey]
    rfl

theorem fits_changedRow (regular : d.Regular) (fits : d.Fits row) (number : Int) :
    d.Fits (d.changedRow row number cells) := by
  refine ⟨?_, fun c hc => ?_, fun c hc hkey => ?_⟩
  · rw [changedRow, List.length_map, List.length_zip, fits.length, Nat.min_self]
  · rw [regular.cell_changedRow hc fits.length]
    cases hkey : d.isKey c.name with
    | true =>
      rw [if_pos rfl, regular.integers c hc hkey]
      rfl
    | false =>
      rw [if_neg Bool.false_ne_true]
      cases given? c cells.reverse with
      | none => exact fits.kept c hc
      | some s => exact c.affinity.store_store s
  · rw [regular.cell_changedRow hc fits.length, if_pos hkey]
    rfl

theorem fits_changeRows (regular : d.Regular) {selected : Row → Bool} {done rows rows' : List Row}
    {n k : Nat} (hdone : ∀ row ∈ done, d.Fits row) (hrows : ∀ row ∈ rows, d.Fits row)
    (h : d.changeRows selected cells done rows n = .ok (rows', k)) : ∀ row ∈ rows', d.Fits row := by
  induction rows generalizing done n with
  | nil =>
    cases h
    exact hdone
  | cons row rest ih =>
    obtain ⟨hrow, hrest⟩ := List.forall_mem_cons.mp hrows
    have more {row : Row} (hrow : d.Fits row) : ∀ r ∈ done ++ [row], d.Fits r :=
      List.forall_mem_append.mpr ⟨hdone, List.forall_mem_singleton.mpr hrow⟩
    rw [changeRows] at h
    split at h
    · obtain ⟨number, -, h⟩ := bind_eq_ok.mp h
      obtain ⟨_, -, h⟩ := bind_eq_ok.mp h
      exact ih (more (fits_changedRow regular hrow number)) hrest h
    · exact ih (more hrow) hrest h

end Definition

/-- A database as a store keeps it. -/
structure Database.Regular (db : Database) : Prop where
  distinct : db.Distinct
  tables : ∀ t ∈ db.tables, t.Regular

namespace Database

variable {db db' : Database} {table : String} {t : Table}

theorem mem_of_table? (ht : db.table? table = some t) : t ∈ db.tables :=
  List.mem_of_find?_eq_some ht

theorem table?_of_mem (distinct : db.Distinct) (ht : t ∈ db.tables)
    (hname : sameFolded t.definition.name table = true) : db.table? table = some t := by
  rw [Distinct, List.pairwise_map] at distinct
  rw [table?]
  generalize db.tables = ts at distinct ht
  induction ts with
  | nil => cases ht
  | cons u us ih =>
    obtain ⟨hapart, hrest⟩ := List.pairwise_cons.mp distinct
    rw [List.find?_cons]
    rcases List.mem_cons.mp ht with rfl | ht
    · rw [hname]
    · have hu : sameFolded u.definition.name table = false := by
        refine Bool.eq_false_iff.mpr fun hfolded => hapart t ht ?_
        exact sameFolded_iff.mpr
          ((sameFolded_iff.mp hfolded).trans (sameFolded_iff.mp hname).symm)
      rw [hu]
      exact ih hrest ht

theorem Distinct.of_names (distinct : db.Distinct)
    (h : db'.tables.map (fun t => t.definition.name) =
      db.tables.map fun t => t.definition.name) : db'.Distinct := by
  have hnames (db : Database) : db.Distinct ↔
      (db.tables.map fun t => t.definition.name).Pairwise fun a b => ¬ sameFolded a b = true := by
    rw [Distinct, List.pairwise_map, List.pairwise_map]
  rw [hnames] at distinct ⊢
  rwa [h]

namespace Regular

variable (regular : db.Regular)

include regular

theorem setRows {rows : List Row} (ht : db.table? table = some t)
    (hrows : ∀ row ∈ rows, t.definition.Fits row) : (db.setRows table rows).Regular := by
  constructor
  · rw [Distinct, definitions_setRows]
    exact regular.distinct
  · intro u hu
    obtain ⟨v, hv, rfl⟩ := List.mem_map.mp hu
    split
    · next hname =>
      cases (table?_of_mem regular.distinct hv hname).symm.trans ht
      exact ⟨(regular.tables t hv).regular, hrows⟩
    · exact regular.tables v hv

theorem insert {cells : List (String × Scalar)} (h : db.insert table cells = .ok db') :
    db'.Regular := by
  obtain ⟨t, number, ht, -, -, rfl⟩ := insert_ok h
  have ht := writable_ok ht
  obtain ⟨hregular, hfits⟩ := regular.tables t (mem_of_table? ht)
  refine regular.setRows ht fun row hrow => ?_
  rcases List.mem_cons.mp ((perm_place t.rows _).mem_iff.mp hrow) with rfl | hrow
  · exact Definition.fits_newRow hregular db.now number
  · exact hfits row hrow

theorem update {cells : List (String × Scalar)} {cs : List Condition} {n : Nat}
    (h : db.update table cells cs = .ok (db', n)) : db'.Regular := by
  obtain ⟨t, rows, ht, hchange, rfl⟩ := update_ok h
  have ht := writable_ok ht
  obtain ⟨hregular, hfits⟩ := regular.tables t (mem_of_table? ht)
  refine regular.setRows ht fun row hrow => ?_
  refine Definition.fits_changeRows hregular (fun row hrow => by cases hrow) hfits hchange row ?_
  exact (List.mergeSort_perm _ _).mem_iff.mp hrow

theorem cascade (fuel : Nat) : (db.cascade fuel).Regular := by
  induction fuel generalizing db with
  | zero => exact regular
  | succ fuel ih =>
    rw [Database.cascade]
    split
    · exact regular
    · refine ih ⟨?_, fun u hu => ?_⟩
      · rw [Distinct, List.map_map]
        exact regular.distinct
      · obtain ⟨v, hv, rfl⟩ := List.mem_map.mp hu
        obtain ⟨hregular, hfits⟩ := regular.tables v hv
        exact ⟨hregular, fun row hrow => hfits row (List.mem_of_mem_filter hrow)⟩

theorem delete {cs : List Condition} {n : Nat} (h : db.delete table cs = .ok (db', n)) :
    db'.Regular := by
  obtain ⟨t, ht, -, rfl⟩ := delete_ok h
  have ht := writable_ok ht
  have hkept : ∀ row ∈ t.rows.filter fun row => !Condition.selects (db.frame t) cs row,
      t.definition.Fits row := fun row hrow =>
    (regular.tables t (mem_of_table? ht)).fits row (List.mem_of_mem_filter hrow)
  have hrest := regular.setRows ht hkept
  split
  · exact hrest.cascade _
  · exact hrest

theorem index {name column : String} (h : db.index name table column = .ok db') :
    db'.Regular := by
  obtain ⟨t, ht, h⟩ := bind_eq_ok.mp h
  split at h
  · cases h
    exact regular
  · cases h
    -- The definition that gets the index is that of the table of the name.
    have hsame {u : Table} (hu : u ∈ db.tables)
        (hname : sameFolded u.definition.name table = true) : u = t :=
      Except.ok.inj ((table_eq (table?_of_mem regular.distinct hu hname)).symm.trans ht)
    constructor
    · refine regular.distinct.of_names ?_
      rw [List.map_map]
      refine List.map_congr_left fun u hu => ?_
      rw [Function.comp_apply]
      split
      · next hname => rw [hsame hu hname]
      · rfl
    · intro u hu
      obtain ⟨v, hv, rfl⟩ := List.mem_map.mp hu
      obtain ⟨hregular, hfits⟩ := regular.tables v hv
      split
      · next hname =>
        rw [← hsame hv hname]
        exact ⟨⟨hregular.distinct, hregular.integers, hregular.defaults⟩, fun row hrow =>
          ⟨(hfits row hrow).length, (hfits row hrow).kept, (hfits row hrow).numbered⟩⟩
      · exact ⟨hregular, hfits⟩

theorem define {d : Definition} (hd : d.Regular) : (db.define d).Regular := by
  rw [Database.define]
  split
  · exact regular
  · next hnone =>
    have hfresh := List.find?_eq_none.mp (Option.not_isSome_iff_eq_none.mp hnone)
    constructor
    · rw [Distinct, List.map_append, List.pairwise_append]
      refine ⟨regular.distinct, List.pairwise_singleton .., fun e he f hf => ?_⟩
      obtain ⟨u, hu, rfl⟩ := List.mem_map.mp he
      cases List.mem_singleton.mp hf
      exact hfresh u hu
    · intro u hu
      rcases List.mem_append.mp hu with hu | hu
      · exact regular.tables u hu
      · cases List.mem_singleton.mp hu
        exact ⟨hd, fun row hrow => by cases hrow⟩

end Regular

end Database

/-- A connection whose database is as a store keeps it, and every one that it may go back to. -/
structure Connection.Regular (c : Connection) : Prop where
  database : c.database.Regular
  before : ∀ t, c.opened = some t → t.before.Regular
  savepoints : ∀ t, c.opened = some t → ∀ e ∈ t.savepoints, e.2.Regular
  dialect : ∀ s w, c.dialect s = some w →
    ∀ db n, db.Regular → (w.run db n).database.Regular

def Job.Regular (job : Job) : Prop :=
  ∀ d, job = .define d → d.Regular

namespace Connection

variable {c d : Connection} {k : Command} {a : Answer}

theorem mem_of_mem_since {name : String} {all : List (String × Database)} {e : String × Database}
    (h : e ∈ since name all) : e ∈ all := by
  induction all with
  | nil => cases h
  | cons first rest ih =>
    rw [since] at h
    split at h
    · exact h
    · exact List.mem_cons_of_mem _ (ih h)

namespace Regular

variable (regular : c.Regular)

include regular

theorem written {db : Database} (hdb : db.Regular) (counters : Counters) :
    Regular { c with database := db, toCounters := counters } :=
  ⟨hdb, regular.before, regular.savepoints, regular.dialect⟩

theorem settle {db : Database} {n : Nat} {added : Option Int} (hdb : db.Regular)
    (h : c.settle db n added = .ok (a, d)) : d.Regular := by
  rw [(settle_ok h).2]
  exact regular.written hdb _

theorem commit (h : c.commit = .ok d) : d.Regular := by
  rw [commit_ok h]
  exact ⟨regular.database, by rintro t ⟨⟩, by rintro t ⟨⟩, regular.dialect⟩

theorem rollback (h : c.rollback = .ok d) : d.Regular := by
  rw [Connection.rollback] at h
  split at h
  · cases h
  · next t ht =>
    cases h
    exact ⟨regular.before t ht, by rintro t ⟨⟩, by rintro t ⟨⟩, regular.dialect⟩

theorem of_since {name : String} {t : Transaction} (ht : c.opened = some t)
    {es : List (String × Database)} (hsince : since name c.savepoints = es) :
    ∀ e ∈ es, e.2.Regular := by
  intro e he
  refine regular.savepoints t ht e ?_
  have hmem := mem_of_mem_since (hsince ▸ he)
  rwa [Connection.savepoints, ht] at hmem

theorem control {k : Control} (h : c.control k = .ok d) : d.Regular := by
  cases k with
  | begin =>
    rw [Connection.control] at h
    split at h
    · cases h
    · cases h
      refine ⟨regular.database, ?_, ?_, regular.dialect⟩
      · rintro t ⟨⟩
        exact regular.database
      · rintro t ⟨⟩ e ⟨⟩
  | commit => exact regular.commit h
  | rollback => exact regular.rollback h
  | savepoint name =>
    cases h
    cases ho : c.opened with
    | none =>
      refine ⟨regular.database, ?_, ?_, regular.dialect⟩
      · rintro t ⟨⟩
        exact regular.database
      · rintro t ⟨⟩
        exact List.forall_mem_singleton.mpr regular.database
    | some t =>
      refine ⟨regular.database, ?_, ?_, regular.dialect⟩
      · rintro _ ⟨⟩
        exact regular.before t ho
      · rintro _ ⟨⟩
        exact List.forall_mem_cons.mpr ⟨regular.database, regular.savepoints t ho⟩
  | release name =>
    rw [Connection.control] at h
    split at h
    · next t e rest ht hsince =>
      split at h
      · exact regular.commit h
      · cases h
        refine ⟨regular.database, ?_, ?_, regular.dialect⟩
        · rintro _ ⟨⟩
          exact regular.before t ht
        · rintro _ ⟨⟩
          exact (List.forall_mem_cons.mp (regular.of_since ht hsince)).2
    · cases h
  | rollbackTo name =>
    rw [Connection.control] at h
    split at h
    · next t n db rest ht hsince =>
      cases h
      have hall := regular.of_since ht hsince
      refine ⟨(List.forall_mem_cons.mp hall).1, ?_, ?_, regular.dialect⟩
      · rintro _ ⟨⟩
        exact regular.before t ht
      · rintro _ ⟨⟩
        exact hall
    · cases h

theorem run? (h : c.run? k = .ok (a, d)) : d.Regular := by
  cases k with
  | query =>
    obtain ⟨_, -, hdone⟩ := bind_eq_ok.mp h
    cases hdone
    exact regular
  | values =>
    cases h
    exact regular
  | insert =>
    obtain ⟨db, hdb, hsettle⟩ := bind_eq_ok.mp h
    exact regular.settle (regular.database.insert hdb) hsettle
  | update =>
    obtain ⟨⟨db, n⟩, hdb, hsettle⟩ := bind_eq_ok.mp h
    exact regular.settle (regular.database.update hdb) hsettle
  | delete =>
    obtain ⟨⟨db, n⟩, hdb, hsettle⟩ := bind_eq_ok.mp h
    exact regular.settle (regular.database.delete hdb) hsettle
  | control =>
    obtain ⟨_, hcontrol, hdone⟩ := bind_eq_ok.mp h
    cases hdone
    exact regular.control hcontrol

theorem refused (k : Command) (r : Refusal) : (c.refused k r).Regular := by
  rw [Connection.refused]
  split
  · exact regular.written regular.database _
  · exact regular

theorem run (k : Command) : (c.run k).2.Regular := by
  rw [Connection.run]
  split
  · next h => exact regular.run? h
  · exact regular.refused k _

theorem runLimited (k : Command) : (c.runLimited k).2.Regular := by
  rw [Connection.runLimited]
  split
  · exact regular.run k
  · exact regular

theorem runText (s : Statement) : (c.runText s).2.Regular := by
  rw [Connection.runText]
  split
  · exact regular.runLimited _
  · exact regular
  · exact regular

theorem runRaw (s : Statement) : (c.runRaw s).2.Regular := by
  rw [Connection.runRaw]
  split
  · next w hw =>
    rw [Connection.carryOut]
    split
    · exact regular.written regular.database _
    · exact regular.written
        (regular.dialect s w (Dialect.eq_of_work? hw) _ _ regular.database) _
  · exact regular.runText s

theorem execute (k : Command) : (c.execute k).2.Regular := by
  rw [Connection.execute]
  split
  · exact regular.runText _
  · exact regular.runLimited k

/-- Every job leaves a connection as a store keeps it. -/
theorem perform {job : Job} (hjob : job.Regular) : (c.perform job).2.Regular := by
  cases job with
  | command k => exact regular.execute k
  | raw s => exact regular.runRaw s
  | define d =>
    exact ⟨regular.database.define (hjob d rfl), regular.before, regular.savepoints,
      regular.dialect⟩
  | index name table column =>
    rw [Connection.perform]
    split
    · next h =>
      exact ⟨regular.database.index h, regular.before, regular.savepoints, regular.dialect⟩
    · exact regular
  | control k => exact regular.run _
  | probe => exact regular
  | shut => exact regular

end Regular

end Connection

theorem Site.regular_perform {site : Site} (regular : site.connection.Regular) {job : Job}
    (hjob : job.Regular) : (site.perform job).2.connection.Regular := by
  have hdone : (site.connection.perform job).2.Regular := regular.perform hjob
  cases job with
  | shut =>
    rw [perform, shut]
    split
    · next h => exact regular.rollback h
    · exact regular
  | _ =>
    simp only [perform]
    split
    · exact hdone
    · exact regular

def Action.Regular (action : Action) : Prop :=
  ∀ job, action = .perform job ∨ action = .leaveBehind job → job.Regular

def Script.Regular {α : Type} : Script α → Prop
  | done _ => True
  | step r _ next => r.action.Regular ∧ ∀ reply, Regular (next reply)

/-- A session whose store is as it should be, also once what was left behind is done. -/
structure Session.Regular (s : Session) : Prop where
  connection : s.site.connection.Regular
  behind : ∀ job ∈ s.behind, job.Regular

namespace Session.Regular

variable {s : Session} (regular : s.Regular)

include regular

theorem catchUp : s.catchUp.Regular := by
  have all (jobs : List Job) (hjobs : ∀ job ∈ jobs, job.Regular) (site : Site)
      (hsite : site.connection.Regular) :
      (jobs.foldl (fun site job => (site.perform job).2) site).connection.Regular := by
    induction jobs generalizing site with
    | nil => exact hsite
    | cons job rest ih =>
      obtain ⟨hjob, hrest⟩ := List.forall_mem_cons.mp hjobs
      exact ih hrest _ (Site.regular_perform hsite hjob)
  exact ⟨all s.behind regular.behind s.site regular.connection, by rintro job ⟨⟩⟩

theorem serve {r : Request} (hr : r.action.Regular) : (s.serve r).2.Regular := by
  obtain ⟨hconnection, hbehind⟩ := regular
  obtain ⟨store, action⟩ := r
  cases action with
  | acquire =>
    simp only [Session.serve]
    split <;> exact ⟨hconnection, hbehind⟩
  | release | enter | leave | tally => exact ⟨hconnection, hbehind⟩
  | perform job =>
    have hdone : Session.Regular { s with
        site := (s.site.perform job).2
        inBatch := inBatchAfter s.inBatch (s.site.perform job).1.isOk job } :=
      ⟨Site.regular_perform hconnection (hr job (.inl rfl)), hbehind⟩
    simp only [Session.serve, Session.perform]
    split
    · exact hdone
    · exact hdone.catchUp
  | leaveBehind job =>
    exact ⟨hconnection, List.forall_mem_append.mpr
      ⟨hbehind, List.forall_mem_singleton.mpr (hr job (.inr rfl))⟩⟩

/-- Whatever a task does, it leaves the store as it should be. -/
theorem run {α : Type} {script : Script α} (hscript : script.Regular) :
    (s.run script).2.Regular := by
  induction script generalizing s with
  | done a => exact regular
  | step r instead next ih =>
    obtain ⟨hr, hnext⟩ := hscript
    exact ih _ (regular.serve hr) (hnext _)

end Session.Regular

end Relata
