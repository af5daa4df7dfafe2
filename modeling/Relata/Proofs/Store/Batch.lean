import Relata.Proofs.Store.Connection
import Relata.Proofs.Store.Writing

/-! # Jobs in a row

Jobs that a connection carries out one after another, up to the first that it refuses.
They leave the open transaction, as each of them does. Where no reference is checked late,
it makes no difference to them whether there is one.
-/

namespace Relata

/-- A job that adds no reference which is checked late. -/
def Job.IsPrompt : Job → Prop
  | .define d => d.Prompt
  | _ => True

def Dialect.IsPrompt (d : Dialect) : Prop :=
  ∀ s w, d s = some w → ∀ db n, db.Prompt → (w.run db n).database.Prompt

namespace Connection

variable {c : Connection} {jobs : List Job}

theorem definitions_run? {k : Command} (hk : k.verb?.isSome = true) {a : Answer}
    {d : Connection} (h : c.run? k = .ok (a, d)) :
    d.database.tables.map Table.definition = c.database.tables.map Table.definition := by
  cases k with
  | query =>
    obtain ⟨rows, _, hdone⟩ := bind_eq_ok.mp h
    cases hdone
    rfl
  | values =>
    cases h
    rfl
  | insert =>
    obtain ⟨db, hdb, hsettle⟩ := bind_eq_ok.mp h
    rw [(settle_ok hsettle).2, ← Database.definitions_insert hdb]
    rfl
  | update =>
    obtain ⟨⟨db, n⟩, hdb, hsettle⟩ := bind_eq_ok.mp h
    rw [(settle_ok hsettle).2, ← Database.definitions_update hdb]
    rfl
  | delete =>
    obtain ⟨⟨db, n⟩, hdb, hsettle⟩ := bind_eq_ok.mp h
    rw [(settle_ok hsettle).2, ← Database.definitions_delete hdb]
    rfl
  | control => cases hk

def under (c : Connection) (o : Option Transaction) : Connection :=
  { c with opened := o }

variable {o : Option Transaction}

theorem settle_under {db : Database} (n : Nat) (added : Option Int)
    (blind : o.isNone = c.opened.isNone ∨ o.isSome = true ∧
      ∀ r, (c.under o).settle db n added = .ok r → r.2.database.broken true = false) :
    (c.under o).settle db n added =
      (c.settle db n added).map fun r => (r.1, r.2.under o) := by
  have hchecked : (o.isNone && db.broken true) = (c.opened.isNone && db.broken true) := by
    rcases blind with same | ⟨hopen, kept⟩
    · rw [same]
    · obtain ⟨t, rfl⟩ := Option.isSome_iff_exists.mp hopen
      have hdb : db.broken true = false := kept _ rfl
      rw [hdb, Bool.and_false, Bool.and_false]
  rw [settle, settle]
  simp only [under, hchecked]
  split <;> rfl

theorem run?_under {k : Command} (hk : k.verb?.isSome = true)
    (blind : o.isNone = c.opened.isNone ∨ o.isSome = true ∧
      ∀ r, (c.under o).run? k = .ok r → r.2.database.broken true = false) :
    (c.under o).run? k = (c.run? k).map fun r => (r.1, r.2.under o) := by
  cases k with
  | query projection table cs order page =>
    simp only [run?, under]
    cases c.database.query projection table cs order page <;> rfl
  | values => rfl
  | insert table cells =>
    simp only [run?] at blind ⊢
    change _ ∨ _ ∧ ∀ r, (c.database.insert table cells >>= _) = _ → _ at blind
    change (c.database.insert table cells >>= _) = _
    cases hdb : c.database.insert table cells with
    | error r => rfl
    | ok db =>
      rw [hdb] at blind
      exact settle_under 1 _ blind
  | update table cells cs =>
    simp only [run?] at blind ⊢
    change _ ∨ _ ∧ ∀ r, (c.database.update table cells cs >>= _) = _ → _ at blind
    change (c.database.update table cells cs >>= _) = _
    cases hdb : c.database.update table cells cs with
    | error r => rfl
    | ok r =>
      rw [hdb] at blind
      exact settle_under r.2 _ blind
  | delete table cs =>
    simp only [run?] at blind ⊢
    change _ ∨ _ ∧ ∀ r, (c.database.delete table cs >>= _) = _ → _ at blind
    change (c.database.delete table cs >>= _) = _
    cases hdb : c.database.delete table cs with
    | error r => rfl
    | ok r =>
      rw [hdb] at blind
      exact settle_under r.2 _ blind
  | control => cases hk

/-- A step cannot tell whether the one transaction is open or the other, or none: none of
the references that are checked at the end of a transaction is broken after it. -/
def Blind (c : Connection) (o : Option Transaction)
    (f : Connection → Except Refusal Answer × Connection) : Prop :=
  o.isNone = c.opened.isNone ∨ o.isSome = true ∧ (f (c.under o)).2.database.broken true = false

theorem run_under {k : Command} (hk : k.verb?.isSome = true)
    (blind : c.Blind o fun c => c.run k) :
    (c.under o).run k = ((c.run k).1, (c.run k).2.under o) := by
  have blind? : o.isNone = c.opened.isNone ∨ o.isSome = true ∧
      ∀ r, (c.under o).run? k = .ok r → r.2.database.broken true = false := by
    refine blind.imp_right (And.imp_right fun kept r hr => ?_)
    simp only [run, hr] at kept
    exact kept
  rw [run, run, run?_under hk blind?]
  cases c.run? k with
  | ok r => rfl
  | error r =>
    simp only [Except.map, refused]
    split <;> rfl

theorem runLimited_under {k : Command} (hk : k.verb?.isSome = true)
    (blind : c.Blind o fun c => c.runLimited k) :
    (c.under o).runLimited k = ((c.runLimited k).1, (c.runLimited k).2.under o) := by
  simp only [runLimited, Blind] at blind ⊢
  cases hlimits : k.checkLimits with
  | ok _ =>
    rw [hlimits] at blind
    exact run_under hk blind
  | error r => rfl

theorem runText_under {s : Statement}
    (hs : ∀ k, Sql.read s = .ok (some k) → k.verb?.isSome = true)
    (blind : c.Blind o fun c => c.runText s) :
    (c.under o).runText s = ((c.runText s).1, (c.runText s).2.under o) := by
  simp only [runText, Blind] at blind ⊢
  cases hr : Sql.read s with
  | error r => rfl
  | ok read =>
    rw [hr] at blind
    cases read with
    | none => rfl
    | some k => exact runLimited_under (hs k hr) blind

theorem carryOut_under {w : Work} (blind : c.Blind o fun c => c.carryOut w) :
    (c.under o).carryOut w = ((c.carryOut w).1, (c.carryOut w).2.under o) := by
  let db := (w.run c.database c.toCounters).database
  have hchecked : (w.writes && o.isNone && db.broken true) =
      (w.writes && c.opened.isNone && db.broken true) := by
    rcases blind with same | ⟨hopen, kept⟩
    · rw [same]
    · obtain ⟨t, rfl⟩ := Option.isSome_iff_exists.mp hopen
      simp only [carryOut, under, Option.isNone_some, Bool.and_false, Bool.false_and,
        Bool.false_eq_true, if_false] at kept
      rw [show db.broken true = false from kept, Bool.and_false, Bool.and_false]
  rw [carryOut, carryOut]
  simp only [under, hchecked, db]
  split <;> rfl

theorem runRaw_under {s : Statement}
    (hs : ∀ k, Sql.read s = .ok (some k) → k.verb?.isSome = true)
    (blind : c.Blind o fun c => c.runRaw s) :
    (c.under o).runRaw s = ((c.runRaw s).1, (c.runRaw s).2.under o) := by
  have hdialect : (c.under o).dialect = c.dialect := rfl
  simp only [runRaw, Blind, hdialect] at blind ⊢
  cases hw : c.dialect.work? s with
  | some w =>
    rw [hw] at blind
    exact carryOut_under blind
  | none =>
    rw [hw] at blind
    exact runText_under hs blind

/-- A job on data cannot tell either, and it leaves the transaction. -/
theorem perform_under {job : Job} (hj : job.IsPlain) (blind : c.Blind o fun c => c.perform job) :
    (c.under o).perform job = ((c.perform job).1, (c.perform job).2.under o) := by
  cases job with
  | command k =>
    simp only [perform, execute, Blind] at blind ⊢
    cases hnamed : k.names.any fun name => Sql.isKeyword name.toList with
    | true =>
      rw [hnamed] at blind
      exact runText_under (fun k' hr => Command.isSome_verb_of_read hj hr) blind
    | false =>
      rw [hnamed] at blind
      exact runLimited_under hj blind
  | raw s => exact runRaw_under hj blind
  | define d => rfl
  | index name table column =>
    simp only [perform, under]
    cases c.database.index name table column <;> rfl
  | control => cases hj
  | probe => rfl
  | shut => cases hj

theorem prompt_runLimited {k : Command} (hk : k.verb?.isSome = true)
    (prompt : c.database.Prompt) : (c.runLimited k).2.database.Prompt := by
  rw [runLimited]
  split
  · rw [run]
    cases h : c.run? k with
    | ok r => exact prompt.of_definitions (definitions_run? hk h)
    | error r => rwa [database_refused]
  · exact prompt

theorem prompt_runText {s : Statement}
    (hs : ∀ k, Sql.read s = .ok (some k) → k.verb?.isSome = true) (prompt : c.database.Prompt) :
    (c.runText s).2.database.Prompt := by
  rw [runText]
  split
  · next k hk => exact prompt_runLimited (hs k hk) prompt
  · exact prompt
  · exact prompt

theorem prompt_runRaw {s : Statement}
    (hs : ∀ k, Sql.read s = .ok (some k) → k.verb?.isSome = true) (hd : c.dialect.IsPrompt)
    (prompt : c.database.Prompt) : (c.runRaw s).2.database.Prompt := by
  rw [runRaw]
  split
  · next w hw =>
    rw [carryOut]
    split
    · exact prompt
    · exact hd s w (Dialect.eq_of_work? hw) _ _ prompt
  · exact prompt_runText hs prompt

theorem prompt_perform {job : Job} (hj : job.IsPlain) (hprompt : job.IsPrompt)
    (hd : c.dialect.IsPrompt) (prompt : c.database.Prompt) :
    (c.perform job).2.database.Prompt := by
  cases job with
  | command k =>
    rw [perform, execute]
    split
    · exact prompt_runText (fun k' hr => Command.isSome_verb_of_read hj hr) prompt
    · exact prompt_runLimited hj prompt
  | raw s => exact prompt_runRaw hj hd prompt
  | define d => exact Database.prompt_define prompt hprompt
  | index name table column =>
    rw [perform]
    split
    · next db h => exact Database.prompt_index prompt h
    · exact prompt
  | control => cases hj
  | probe => exact prompt
  | shut => cases hj

/-- The counts of jobs that are carried out one after another, or the refusal of the first
that is not carried out. -/
def performAll (c : Connection) : List Job → Except Refusal (List Nat) × Connection
  | [] => (.ok [], c)
  | job :: jobs =>
    match c.perform job with
    | (.error r, d) => (.error r, d)
    | (.ok a, d) => ((d.performAll jobs).1.map (a.count :: ·), (d.performAll jobs).2)

theorem performAll_cons_error {job : Job} {r : Refusal} (h : (c.perform job).1 = .error r) :
    c.performAll (job :: jobs) = (.error r, (c.perform job).2) := by
  rw [performAll]
  split
  · next r' d hd =>
    rw [hd] at h ⊢
    cases h
    rfl
  · next a d hd =>
    rw [hd] at h
    cases h

theorem performAll_cons_ok {job : Job} {a : Answer} (h : (c.perform job).1 = .ok a) :
    c.performAll (job :: jobs) =
      (((c.perform job).2.performAll jobs).1.map (a.count :: ·),
        ((c.perform job).2.performAll jobs).2) := by
  rw [performAll]
  split
  · next r d hd =>
    rw [hd] at h
    cases h
  · next a' d hd =>
    rw [hd] at h ⊢
    cases h
    rfl

theorem length_performAll {counts : List Nat} (h : (c.performAll jobs).1 = .ok counts) :
    counts.length = jobs.length := by
  induction jobs generalizing c counts with
  | nil =>
    cases h
    rfl
  | cons job jobs ih =>
    cases hjob : (c.perform job).1 with
    | error r =>
      rw [performAll_cons_error hjob] at h
      cases h
    | ok a =>
      rw [performAll_cons_ok hjob] at h
      obtain ⟨rest, hrest, rfl⟩ := map_eq_ok.mp h
      rw [List.length_cons, List.length_cons, ih hrest]

theorem opened_performAll (plain : ∀ job ∈ jobs, job.IsPlain) :
    (c.performAll jobs).2.opened = c.opened := by
  induction jobs generalizing c with
  | nil => rfl
  | cons job jobs ih =>
    have hjob := opened_perform_of_plain (c := c) (plain job List.mem_cons_self)
    cases h : (c.perform job).1 with
    | error r => rw [performAll_cons_error h, hjob]
    | ok a =>
      rw [performAll_cons_ok h, ← hjob]
      exact ih fun j hj => plain j (List.mem_cons_of_mem _ hj)

theorem dialect_performAll (c : Connection) (jobs : List Job) :
    (c.performAll jobs).2.dialect = c.dialect := by
  induction jobs generalizing c with
  | nil => rfl
  | cons job jobs ih =>
    cases h : (c.perform job).1 with
    | error r => rw [performAll_cons_error h, dialect_perform]
    | ok a => rw [performAll_cons_ok h, ih, dialect_perform]

theorem prompt_performAll (plain : ∀ job ∈ jobs, job.IsPlain)
    (hprompt : ∀ job ∈ jobs, job.IsPrompt) (hdialect : c.dialect.IsPrompt)
    (prompt : c.database.Prompt) : (c.performAll jobs).2.database.Prompt := by
  induction jobs generalizing c with
  | nil => exact prompt
  | cons job jobs ih =>
    obtain ⟨hplain, plain⟩ := List.forall_mem_cons.mp plain
    obtain ⟨hjob, hprompt⟩ := List.forall_mem_cons.mp hprompt
    have hd := prompt_perform hplain hjob hdialect prompt
    cases h : (c.perform job).1 with
    | error r => rwa [performAll_cons_error h]
    | ok a =>
      rw [performAll_cons_ok h]
      exact ih plain hprompt (by rwa [dialect_perform]) hd

theorem snd_performAll_singleton (job : Job) : (c.performAll [job]).2 = (c.perform job).2 := by
  cases h : (c.perform job).1 with
  | error r => rw [performAll_cons_error h]
  | ok a =>
    rw [performAll_cons_ok h]
    rfl

/-- After no part of the jobs a reference is broken that is checked at the end of a
transaction. -/
def Unbroken (c : Connection) (jobs : List Job) : Prop :=
  ∀ n, (c.performAll (jobs.take n)).2.database.broken true = false

theorem unbroken_of_prompt (plain : ∀ job ∈ jobs, job.IsPlain)
    (hprompt : ∀ job ∈ jobs, job.IsPrompt) (hdialect : c.dialect.IsPrompt)
    (prompt : c.database.Prompt) : c.Unbroken jobs :=
  fun _ => Database.broken_of_prompt (prompt_performAll
    (fun j hj => plain j (List.mem_of_mem_take hj))
    (fun j hj => hprompt j (List.mem_of_mem_take hj)) hdialect prompt)

/-- Jobs in a row have the same counts and leave the same database, whether the one
transaction is open or the other. -/
theorem performAll_under {o : Option Transaction} (plain : ∀ job ∈ jobs, job.IsPlain)
    (blind : o.isNone = c.opened.isNone ∨ o.isSome = true ∧ (c.under o).Unbroken jobs) :
    (c.under o).performAll jobs = ((c.performAll jobs).1, (c.performAll jobs).2.under o) := by
  induction jobs generalizing c with
  | nil => rfl
  | cons job jobs ih =>
    obtain ⟨hplain, plain⟩ := List.forall_mem_cons.mp plain
    have hjob := perform_under (c := c) (o := o) hplain <| by
      refine blind.imp_right (And.imp_right fun unbroken => ?_)
      rw [← snd_performAll_singleton]
      exact unbroken 1
    cases h : (c.perform job).1 with
    | error r =>
      rw [performAll_cons_error (by rw [hjob, h]), performAll_cons_error h, hjob]
    | ok a =>
      have hblind : o.isNone = (c.perform job).2.opened.isNone ∨
          o.isSome = true ∧ ((c.perform job).2.under o).Unbroken jobs := by
        refine blind.imp (fun same => ?_) (And.imp_right fun unbroken n => ?_)
        · rw [same, opened_perform_of_plain hplain]
        · have := unbroken (n + 1)
          rwa [List.take_succ_cons, performAll_cons_ok (by rw [hjob, h]), hjob] at this
      rw [performAll_cons_ok (by rw [hjob, h]), performAll_cons_ok h, hjob, ih plain hblind]

structure Inserted (c : Connection) (a : Answer) (d : Connection) : Prop where
  count : a.count = 1
  definitions :
    d.database.tables.map Table.definition = c.database.tables.map Table.definition
  rowCount : c.database.Distinct → d.database.rowCount = c.database.rowCount + 1

theorem inserted_run? {k : Command} (hk : k.verb? = some "INSERT") {a : Answer}
    {d : Connection} (h : c.run? k = .ok (a, d)) : c.Inserted a d := by
  have hdefinitions := definitions_run? (Option.isSome_iff_exists.mpr ⟨_, hk⟩) h
  cases k with
  | insert table cells =>
    obtain ⟨db, hdb, hsettle⟩ := bind_eq_ok.mp h
    obtain ⟨rfl, rfl⟩ := settle_ok hsettle
    exact ⟨rfl, hdefinitions, fun distinct => Database.rowCount_insert distinct hdb⟩
  | query | values | update | delete | control => simp [Command.verb?] at hk

theorem inserted_runLimited {k : Command} (hk : k.verb? = some "INSERT") {a : Answer}
    (h : (c.runLimited k).1 = .ok a) : c.Inserted a (c.runLimited k).2 := by
  rw [runLimited] at h ⊢
  cases hlimits : k.checkLimits with
  | error r =>
    rw [hlimits] at h
    cases h
  | ok _ =>
    simp only [hlimits, run] at h ⊢
    cases hrun : c.run? k with
    | error r =>
      rw [hrun] at h
      cases h
    | ok r =>
      rw [hrun] at h
      cases h
      exact inserted_run? hk hrun

theorem inserted_perform {k : Command} (hk : k.verb? = some "INSERT") {a : Answer}
    (h : (c.perform (.command k)).1 = .ok a) :
    c.Inserted a (c.perform (.command k)).2 := by
  rw [perform, execute] at h ⊢
  split at h
  · next named =>
    rw [if_pos named]
    rw [runText] at h ⊢
    cases hr : Sql.read k.statement with
    | error r =>
      rw [hr] at h
      cases h
    | ok read =>
      cases read with
      | none => exact absurd hr (Command.read_ne_none hk)
      | some k' =>
        simp only [hr] at h ⊢
        exact inserted_runLimited (Command.verb_of_read hk hr) h
  · next named =>
    rw [if_neg named]
    exact inserted_runLimited hk h

/-- Insertions in a row have counts of one, and add as many rows as they are. -/
theorem performAll_insertions {ks : List Command} (hks : ∀ k ∈ ks, k.verb? = some "INSERT")
    {counts : List Nat} (h : (c.performAll (ks.map .command)).1 = .ok counts) :
    counts = List.replicate ks.length 1 ∧
      (c.database.Distinct →
        (c.performAll (ks.map .command)).2.database.rowCount =
          c.database.rowCount + ks.length) := by
  induction ks generalizing c counts with
  | nil =>
    cases h
    exact ⟨rfl, fun _ => rfl⟩
  | cons k ks ih =>
    obtain ⟨hk, hks⟩ := List.forall_mem_cons.mp hks
    rw [List.map_cons] at h ⊢
    cases hjob : (c.perform (.command k)).1 with
    | error r =>
      rw [performAll_cons_error hjob] at h
      cases h
    | ok a =>
      have inserted := inserted_perform hk hjob
      rw [performAll_cons_ok hjob] at h ⊢
      obtain ⟨rest, hrest, rfl⟩ := map_eq_ok.mp h
      obtain ⟨rfl, hrows⟩ := ih hks hrest
      refine ⟨by rw [inserted.count, List.length_cons, List.replicate_succ], fun distinct => ?_⟩
      have distinct' : (c.perform (.command k)).2.database.Distinct := by
        rw [Database.Distinct, inserted.definitions]
        exact distinct
      rw [hrows distinct', inserted.rowCount distinct, List.length_cons]
      omega

end Connection

end Relata
