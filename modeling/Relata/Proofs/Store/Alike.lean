import Relata.Proofs.Store.Connection

/-! # Connections alike

Connections are alike if they have the same dialect and differ at most in what they count.
Commands that write nothing answer with the rows that the last writing one changed, and
statements of the dialect may look at all of the counters. To jobs that do not look at them,
alike connections give the same answers, up to counts that are not the job's own, and they
stay alike.
-/

namespace Relata

/-- An answer, with its count only if that is one of its own. -/
def Answer.told (own : Bool) (a : Answer) : Answer :=
  if own then a else { a with count := 0 }

/-- A statement that does not look at the counters: they are nothing to its rows, to what it
writes, and to its count if that is one of its own. -/
structure Work.Blind (w : Work) : Prop where
  rows : ∀ db m n, (w.run db m).rows = (w.run db n).rows
  database : ∀ db m n, (w.run db m).database = (w.run db n).database
  count : w.writes = true →
    ∀ db m n, (w.run db m).counters.changes = (w.run db n).counters.changes

namespace Job

variable {dialect : Dialect}

/-- Whether the count of an answer to a job is one of the job itself. -/
def counted (dialect : Dialect) : Job → Bool
  | .command k => Connection.writes k
  | .raw s =>
    match Sql.read s with
    | .ok (some k) => Connection.writes k
    | .ok none => false
    | .error _ => ((dialect s).map Work.writes).getD false
  | .control _ => false
  | _ => true

/-- A job that does not look at the counters, but answers with one at most. -/
def Blind (dialect : Dialect) : Job → Prop
  | .raw s => ∀ w, dialect.work? s = some w → w.Blind
  | _ => True

def told (dialect : Dialect) (job : Job) (a : Answer) : Answer :=
  a.told (job.counted dialect)

theorem counted_of_work? {s : Statement} {w : Work} (h : dialect.work? s = some w) :
    (raw s).counted dialect = w.writes := by
  rw [Dialect.work?] at h
  rw [counted]
  split at h
  · cases h
  · next r hr => rw [hr, h]; rfl

theorem count_told (job : Job) (a : Answer) :
    (job.told dialect { count := a.count }).count = (job.told dialect a).count := by
  rw [told, told, Answer.told, Answer.told]
  cases job.counted dialect <;> rfl

end Job

theorem Command.writes_of_verb {k k' : Command} (h : k.verb? = k'.verb?) :
    Connection.writes k = Connection.writes k' := by
  cases k <;> cases k' <;> simp_all [verb?, Connection.writes]

namespace Connection

/-- The same database and the same open transaction, and in the same dialect. -/
structure Alike (dialect : Dialect) (c d : Connection) : Prop where
  database : c.database = d.database
  opened : c.opened = d.opened
  left : c.dialect = dialect
  right : d.dialect = dialect

variable {c d : Connection} {dialect : Dialect} {k : Command}

def counting (c : Connection) (n : Counters) : Connection :=
  { c with toCounters := n }

namespace Alike

theorem of_counting (h : c.dialect = dialect) (n : Counters) :
    Alike dialect c (c.counting n) :=
  ⟨rfl, rfl, h, h⟩

theorem eq_counting (h : Alike dialect c d) : d = c.counting d.toCounters := by
  obtain ⟨hdatabase, hopened, hleft, hright⟩ := h
  rw [counting, hdatabase, hopened, hleft.trans hright.symm]

theorem refused (h : Alike dialect c d) (k : Command) (r : Refusal) :
    Alike dialect (c.refused k r) (d.refused k r) := by
  simp only [Connection.refused]
  split
  · exact ⟨h.database, h.opened, h.left, h.right⟩
  · exact h

end Alike

theorem commit_counting (n : Counters) :
    (c.counting n).commit = c.commit.map fun e => e.counting n := by
  have hopened : (c.counting n).opened = c.opened := rfl
  have hdatabase : (c.counting n).database = c.database := rfl
  rw [commit, commit, hopened, hdatabase]
  split
  · rfl
  · split <;> rfl

theorem control_counting (k : Control) (n : Counters) :
    (c.counting n).control k = (c.control k).map fun e => e.counting n := by
  have hopened : (c.counting n).opened = c.opened := rfl
  have hsavepoints : (c.counting n).savepoints = c.savepoints := rfl
  cases k with
  | begin =>
    simp only [control, hopened]
    cases c.opened <;> rfl
  | commit => exact commit_counting n
  | rollback =>
    simp only [control, rollback, hopened]
    cases c.opened <;> rfl
  | savepoint name => rfl
  | release name =>
    simp only [control, hopened, hsavepoints]
    split
    · split
      · exact commit_counting n
      · rfl
    · rfl
  | rollbackTo name =>
    simp only [control, hopened, hsavepoints]
    split <;> rfl

theorem settle_counting (db : Database) (rows : Nat) (added : Option Int) (n : Counters) :
    ∃ m, (c.counting n).settle db rows added =
      (c.settle db rows added).map fun r => (r.1, r.2.counting m) := by
  refine ⟨((c.counting n).written db rows added).toCounters, ?_⟩
  have hopened : (c.counting n).opened = c.opened := rfl
  rw [settle, settle, hopened]
  split <;> rfl

theorem run?_counting (hk : writes k = true) (n : Counters) :
    ∃ m, (c.counting n).run? k = (c.run? k).map fun r => (r.1, r.2.counting m) := by
  have hdatabase : (c.counting n).database = c.database := rfl
  cases k with
  | insert table cells =>
    simp only [run?, hdatabase]
    cases c.database.insert table cells with
    | error r => exact ⟨n, rfl⟩
    | ok db => exact settle_counting db 1 _ n
  | update table cells cs =>
    simp only [run?, hdatabase]
    cases c.database.update table cells cs with
    | error r => exact ⟨n, rfl⟩
    | ok r => exact settle_counting r.1 r.2 none n
  | delete table cs =>
    simp only [run?, hdatabase]
    cases c.database.delete table cs with
    | error r => exact ⟨n, rfl⟩
    | ok r => exact settle_counting r.1 r.2 none n
  | query | values | control => cases hk

namespace Alike

theorem run (h : Alike dialect c d) (k : Command) :
    (c.run k).1.map (Answer.told (writes k)) = (d.run k).1.map (Answer.told (writes k)) ∧
      Alike dialect (c.run k).2 (d.run k).2 := by
  cases hk : writes k with
  | true =>
    obtain ⟨m, hm⟩ := run?_counting hk d.toCounters
    rw [← h.eq_counting] at hm
    rw [Connection.run, Connection.run, hm]
    cases hrun : c.run? k with
    | ok r => exact ⟨rfl, of_counting ((dialect_run? hrun).trans h.left) m⟩
    | error r => exact ⟨rfl, h.refused k r⟩
  | false =>
    cases k with
    | insert | update | delete => cases hk
    | query projection table cs order page =>
      simp only [Connection.run, run?, h.database]
      cases d.database.query projection table cs order page with
      | ok rows => exact ⟨rfl, h⟩
      | error r => exact ⟨rfl, h.refused (.query projection table cs order page) r⟩
    | values cells => exact ⟨rfl, h⟩
    | control k =>
      have hcontrol := control_counting (c := c) k d.toCounters
      rw [← h.eq_counting] at hcontrol
      simp only [Connection.run, run?, hcontrol]
      cases hk : c.control k with
      | ok e => exact ⟨rfl, of_counting ((dialect_control hk).trans h.left) _⟩
      | error r => exact ⟨rfl, h.refused (.control k) r⟩

theorem runLimited (h : Alike dialect c d) (k : Command) :
    (c.runLimited k).1.map (Answer.told (writes k)) =
        (d.runLimited k).1.map (Answer.told (writes k)) ∧
      Alike dialect (c.runLimited k).2 (d.runLimited k).2 := by
  rw [Connection.runLimited, Connection.runLimited]
  cases k.checkLimits with
  | ok _ => exact h.run k
  | error r => exact ⟨rfl, h⟩

theorem runText (h : Alike dialect c d) (s : Statement) :
    (c.runText s).1.map ((Job.raw s).told dialect) =
        (d.runText s).1.map ((Job.raw s).told dialect) ∧
      Alike dialect (c.runText s).2 (d.runText s).2 := by
  have htold (k : Command) (hk : Sql.read s = .ok (some k)) :
      (Job.raw s).told dialect = Answer.told (writes k) := by
    funext a
    rw [Job.told, Job.counted, hk]
  rw [Connection.runText, Connection.runText]
  cases hr : Sql.read s with
  | error r => exact ⟨rfl, h⟩
  | ok k =>
    cases k with
    | some k =>
      rw [htold k hr]
      exact h.runLimited k
    | none =>
      refine ⟨?_, h⟩
      simp only [Except.map, Job.told, Job.counted, hr]
      rfl

/-- A statement that does not look at the counters is carried out alike. -/
theorem carryOut (h : Alike dialect c d) {w : Work} (blind : w.Blind) :
    (c.carryOut w).1.map (Answer.told w.writes) = (d.carryOut w).1.map (Answer.told w.writes) ∧
      Alike dialect (c.carryOut w).2 (d.carryOut w).2 := by
  have hdatabase := blind.database c.database c.toCounters d.toCounters
  have hrows := blind.rows c.database c.toCounters d.toCounters
  rw [Connection.carryOut, Connection.carryOut, ← h.database, ← h.opened, ← hdatabase, ← hrows]
  split
  · exact ⟨rfl, rfl, rfl, h.left, h.right⟩
  · refine ⟨?_, rfl, rfl, h.left, h.right⟩
    cases (w.run c.database c.toCounters).rows with
    | error r => rfl
    | ok rows =>
      cases hw : w.writes with
      | false => rfl
      | true => simp only [Except.map, blind.count hw c.database c.toCounters d.toCounters]

theorem runRaw (h : Alike dialect c d) {s : Statement} (blind : (Job.raw s).Blind dialect) :
    (c.runRaw s).1.map ((Job.raw s).told dialect) =
        (d.runRaw s).1.map ((Job.raw s).told dialect) ∧
      Alike dialect (c.runRaw s).2 (d.runRaw s).2 := by
  rw [Connection.runRaw, Connection.runRaw, h.left, h.right]
  cases hw : dialect.work? s with
  | none => exact h.runText s
  | some w =>
    have htold : (Job.raw s).told dialect = Answer.told w.writes := by
      funext a
      rw [Job.told, Job.counted_of_work? hw]
    rw [htold]
    exact h.carryOut (blind w hw)

theorem runText_statement (h : Alike dialect c d) {verb : String}
    (hk : k.verb? = some verb) :
    (c.runText k.statement).1.map (Answer.told (writes k)) =
        (d.runText k.statement).1.map (Answer.told (writes k)) ∧
      Alike dialect (c.runText k.statement).2 (d.runText k.statement).2 := by
  rw [Connection.runText, Connection.runText]
  cases hr : Sql.read k.statement with
  | error r => exact ⟨rfl, h⟩
  | ok read =>
    cases read with
    | none => exact absurd hr (Command.read_ne_none hk)
    | some k' =>
      have hverb : k'.verb? = k.verb? := (Command.verb_of_read hk hr).trans hk.symm
      rw [← Command.writes_of_verb hverb]
      exact h.runLimited k'

/-- Alike connections answer a job alike, and stay alike. -/
theorem perform (h : Alike dialect c d) {job : Job} (blind : job.Blind dialect) :
    (c.perform job).1.map (job.told dialect) = (d.perform job).1.map (job.told dialect) ∧
      Alike dialect (c.perform job).2 (d.perform job).2 := by
  cases job with
  | command k =>
    rw [Connection.perform, Connection.perform, execute, execute]
    split
    · next named =>
      cases hk : k.verb? with
      | some verb => exact h.runText_statement hk
      | none =>
        cases k with
        | control => cases named
        | query | values | insert | update | delete => cases hk
    · exact h.runLimited k
  | raw s => exact h.runRaw blind
  | define d =>
    refine ⟨rfl, ?_, h.opened, h.left, h.right⟩
    simp only [Connection.perform, h.database]
  | index name table column =>
    simp only [Connection.perform, h.database]
    cases d.database.index name table column with
    | ok db => exact ⟨rfl, rfl, h.opened, h.left, h.right⟩
    | error r => exact ⟨rfl, h⟩
  | control k => exact h.run (.control k)
  | probe => exact ⟨rfl, h⟩
  | shut => exact ⟨rfl, h⟩

end Alike

end Connection

end Relata
