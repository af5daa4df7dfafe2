import Relata.Proofs.Script.Session
import Relata.Proofs.Store.Batch
import Relata.Script.Transaction

/-! # Batches in sessions

A batch outside of transactions is a transaction of its own; inside of one it is what
stands between a savepoint and its release. Either way its jobs are carried out in a row,
and if one of them is refused, the database is again what it was before the first.
-/

namespace Relata

def Transaction.marked (t : Transaction) (name : String) (db : Database) : Transaction :=
  { t with savepoints := (name, db) :: t.savepoints }

namespace Connection

variable {c : Connection} {t : Transaction} {name : String} {db : Database}

theorem run_control (k : Control) :
    c.run (.control k) =
      match c.control k with
      | .ok d => (.ok { count := c.changes }, d)
      | .error r => (.error r, c) := by
  rw [run, run?]
  cases c.control k <;> rfl

def begun (c : Connection) : Connection :=
  c.under (some { before := c.database })

theorem control_begin (h : c.opened = none) : c.control .begin = .ok c.begun := by
  rw [control, h]
  rfl

theorem control_commit (h : c.opened = some t) :
    c.control .commit =
      if c.database.broken true then .error .brokenReference
      else .ok { c with opened := none } := by
  rw [control, commit, h]

theorem control_rollback (h : c.opened = some t) :
    c.control .rollback = .ok { c with database := t.before, opened := none } := by
  rw [control, rollback, h]

theorem control_savepoint (h : c.opened = some t) :
    c.control (.savepoint name) = .ok { c with opened := some (t.marked name c.database) } := by
  rw [control, h]
  rfl

theorem since_marked (h : c.opened = some (t.marked name db)) :
    since name c.savepoints = (name, db) :: t.savepoints := by
  have hs : c.savepoints = (name, db) :: t.savepoints := by
    rw [savepoints, h]
    rfl
  rw [hs, since, if_pos (Text.sameFolded_iff.mpr rfl)]

theorem control_release (h : c.opened = some (t.marked name db)) (explicit : t.implicit = false) :
    c.control (.release name) = .ok { c with opened := some t } := by
  obtain ⟨before, implicit, savepoints⟩ := t
  cases explicit
  simp only [control, since_marked h, h, Transaction.marked, Bool.and_false,
    Bool.false_eq_true, if_false]

theorem control_rollbackTo (h : c.opened = some (t.marked name db)) :
    c.control (.rollbackTo name) = .ok { c with database := db } := by
  simp only [control, since_marked h, h]
  rfl

/-- A batch in a transaction of its own: the counts of its jobs or the refusal of one, and
what is left. -/
def whole (c : Connection) (jobs : List Job) : Except Refusal (List Nat) × Connection :=
  match c.begun.performAll jobs with
  | (.ok counts, d) =>
    if d.database.broken true then
      (.error .brokenReference, { d with database := c.database, opened := none })
    else (.ok counts, { d with opened := none })
  | (.error r, d) => (.error r, { d with database := c.database, opened := none })

def part (c : Connection) (t : Transaction) (jobs : List Job) :
    Except Refusal (List Nat) × Connection :=
  let marked := { c with opened := some (t.marked Handle.batchName c.database) }
  match marked.performAll jobs with
  | (.ok counts, d) => (.ok counts, { d with opened := some t })
  | (.error r, d) => (.error r, { d with database := c.database, opened := some t })

theorem whole_ok {jobs : List Job} {counts : List Nat} {d : Connection}
    (h : c.begun.performAll jobs = (.ok counts, d)) :
    c.whole jobs =
      if d.database.broken true then
        (.error .brokenReference, { d with database := c.database, opened := none })
      else (.ok counts, { d with opened := none }) := by
  simp only [whole, h]

theorem whole_error {jobs : List Job} {r : Refusal} {d : Connection}
    (h : c.begun.performAll jobs = (.error r, d)) :
    c.whole jobs = (.error r, { d with database := c.database, opened := none }) := by
  simp only [whole, h]

theorem part_ok {jobs : List Job} {counts : List Nat} {d : Connection}
    (h : { c with opened := some (t.marked Handle.batchName c.database) }.performAll jobs =
      (.ok counts, d)) : c.part t jobs = (.ok counts, { d with opened := some t }) := by
  simp only [part, h]

theorem part_error {jobs : List Job} {r : Refusal} {d : Connection}
    (h : { c with opened := some (t.marked Handle.batchName c.database) }.performAll jobs =
      (.error r, d)) :
    c.part t jobs = (.error r, { d with database := c.database, opened := some t }) := by
  simp only [part, h]

end Connection

theorem Site.perform_of_isOpen {s : Site} (isOpen : s.isOpen = true) {job : Job}
    (hj : job ≠ .shut) :
    s.perform job =
      ((s.connection.perform job).1.mapError Refusal.failure,
        { s with
          connection := (s.connection.perform job).2
          executed := s.executed + if job.counts then 1 else 0 }) := by
  cases job with
  | shut => exact absurd rfl hj
  | command | raw | define | index | control | probe => simp only [perform, isOpen, if_true]

namespace Session

variable {s : Session} {jobs : List Job}

/-- The store answers, and nothing is to be done behind the next job. -/
structure Ready (s : Session) : Prop where
  isOpen : s.site.isOpen = true
  behind : s.behind = []

def moved (s : Session) (c : Connection) (executed : Nat) : Session :=
  { s with site := { s.site with connection := c, executed } }

@[simp] theorem connection_moved (c : Connection) (n : Nat) : (s.moved c n).site.connection = c :=
  rfl

@[simp] theorem moved_moved (c d : Connection) (n m : Nat) :
    (s.moved c n).moved d m = s.moved d m :=
  rfl

theorem Ready.moved (ready : s.Ready) (c : Connection) (n : Nat) : (s.moved c n).Ready :=
  ⟨ready.isOpen, ready.behind⟩

theorem run_handle_ask (h : Handle) (job : Job) : s.run (h.ask job) = s.perform job :=
  rfl

theorem perform_plain (ready : s.Ready) {job : Job} (hj : job.IsPlain) :
    ∃ n, s.perform job =
      ((s.site.connection.perform job).1.mapError Refusal.failure,
        s.moved (s.site.connection.perform job).2 n) := by
  rw [perform_of_behind ready.behind]
  cases job with
  | control => cases hj
  | shut => cases hj
  | command | raw | define | index | probe =>
    rw [Site.perform_of_isOpen ready.isOpen (by simp)]
    exact ⟨_, rfl⟩

theorem perform_control (ready : s.Ready) (k : Control) :
    s.perform (.control k) =
      match s.site.connection.control k with
      | .ok d =>
        (.ok { count := s.site.connection.changes },
          { s.moved d s.site.executed with
            inBatch := inBatchAfter s.inBatch true (.control k) })
      | .error r =>
        (.error r.failure,
          { s with inBatch := inBatchAfter s.inBatch false (.control k) }) := by
  rw [perform_of_behind ready.behind, Site.perform_of_isOpen ready.isOpen (by simp),
    Connection.perform, Connection.run_control]
  cases h : s.site.connection.control k <;> rfl

section Control

variable {t : Transaction} {name : String} {db : Database}

theorem perform_begin (ready : s.Ready) (opened : s.site.connection.opened = none) :
    s.perform (.control .begin) =
      (.ok { count := s.site.connection.changes },
        s.moved s.site.connection.begun s.site.executed) := by
  rw [perform_control ready, Connection.control_begin opened]
  rfl

theorem perform_begin_again (ready : s.Ready) (opened : s.site.connection.opened = some t) :
    s.perform (.control .begin) = (.error Refusal.alreadyOpen.failure, s) := by
  rw [perform_control ready, Connection.control, opened]
  rfl

theorem perform_commit (ready : s.Ready) (opened : s.site.connection.opened = some t)
    (kept : ¬ s.site.connection.database.broken true = true) :
    s.perform (.control .commit) =
      (.ok { count := s.site.connection.changes },
        s.moved { s.site.connection with opened := none } s.site.executed) := by
  rw [perform_control ready, Connection.control_commit opened, if_neg kept]
  rfl

theorem perform_commit_broken (ready : s.Ready) (opened : s.site.connection.opened = some t)
    (broken : s.site.connection.database.broken true = true) :
    s.perform (.control .commit) = (.error Refusal.brokenReference.failure, s) := by
  rw [perform_control ready, Connection.control_commit opened, if_pos broken]
  rfl

theorem perform_rollback (ready : s.Ready) (opened : s.site.connection.opened = some t) :
    s.perform (.control .rollback) =
      (.ok { count := s.site.connection.changes },
        s.moved { s.site.connection with database := t.before, opened := none }
          s.site.executed) := by
  rw [perform_control ready, Connection.control_rollback opened]
  rfl

theorem perform_savepoint (ready : s.Ready) (opened : s.site.connection.opened = some t) :
    s.perform (.control (.savepoint name)) =
      (.ok { count := s.site.connection.changes },
        { s.moved
            { s.site.connection with opened := some (t.marked name s.site.connection.database) }
            s.site.executed with
          inBatch := true }) := by
  rw [perform_control ready, Connection.control_savepoint opened]
  rfl

theorem perform_release (ready : s.Ready)
    (opened : s.site.connection.opened = some (t.marked name db)) (explicit : t.implicit = false) :
    s.perform (.control (.release name)) =
      (.ok { count := s.site.connection.changes },
        { s.moved { s.site.connection with opened := some t } s.site.executed with
          inBatch := false }) := by
  rw [perform_control ready, Connection.control_release opened explicit]
  rfl

theorem perform_rollbackTo (ready : s.Ready)
    (opened : s.site.connection.opened = some (t.marked name db)) :
    s.perform (.control (.rollbackTo name)) =
      (.ok { count := s.site.connection.changes },
        s.moved { s.site.connection with database := db } s.site.executed) := by
  rw [perform_control ready, Connection.control_rollbackTo opened]
  cases s with | mk site holds bodies behind inBatch => cases inBatch <;> rfl

end Control

/-- Jobs one after another are those of the connection. -/
theorem run_each (ready : s.Ready) (h : Handle) (plain : ∀ job ∈ jobs, job.IsPlain) :
    ∃ n, s.run (h.each jobs) =
      ((s.site.connection.performAll jobs).1.mapError Refusal.failure,
        s.moved (s.site.connection.performAll jobs).2 n) := by
  induction jobs generalizing s with
  | nil => exact ⟨s.site.executed, rfl⟩
  | cons job jobs ih =>
    obtain ⟨n, hn⟩ := perform_plain ready (plain job List.mem_cons_self)
    rw [Handle.each, run_bind, run_handle_ask, hn]
    cases hjob : (s.site.connection.perform job).1 with
    | error r =>
      rw [Connection.performAll_cons_error hjob]
      exact ⟨n, rfl⟩
    | ok a =>
      obtain ⟨m, hm⟩ := ih (ready.moved (s.site.connection.perform job).2 n)
        fun j hj => plain j (List.mem_cons_of_mem _ hj)
      rw [Connection.performAll_cons_ok hjob]
      refine ⟨m, ?_⟩
      simp only [Except.mapError, run_bind, hm, connection_moved, moved_moved]
      generalize Connection.performAll _ jobs = r
      rcases r with ⟨_ | counts, d⟩ <;> rfl

theorem run_handle_control (h : Handle) (k : Control) :
    s.run (h.control k) =
      ((s.perform (.control k)).1.mapError Failure.ofControl, (s.perform (.control k)).2) :=
  rfl

/-- The result of a batch inside of a transaction, and what it leaves. -/
theorem run_partialBatch (ready : s.Ready) (apart : s.inBatch = false) (h : Handle)
    (plain : ∀ job ∈ jobs, job.IsPlain) {t : Transaction}
    (opened : s.site.connection.opened = some t) (explicit : t.implicit = false) :
    ∃ n, s.run (h.partialBatch jobs) =
      ((s.site.connection.part t jobs).1.mapError Refusal.failure,
        s.moved (s.site.connection.part t jobs).2 n) := by
  have hs : s = { s with inBatch := false } := by rw [← apart]
  let c := { s.site.connection with
    opened := some (t.marked Handle.batchName s.site.connection.database) }
  let u := { s.moved c s.site.executed with inBatch := true }
  have ready' : u.Ready := ⟨ready.isOpen, ready.behind⟩
  have hmark : s.run (h.control (.savepoint Handle.batchName)) =
      (.ok { count := s.site.connection.changes }, u) := by
    rw [run_handle_control, perform_savepoint ready opened]
    rfl
  obtain ⟨n, hn⟩ := run_each ready' h plain
  change u.run (h.each jobs) =
    ((c.performAll jobs).1.mapError Refusal.failure, u.moved (c.performAll jobs).2 n) at hn
  rw [Handle.partialBatch, run_bind, hmark]
  simp only [run_bind, hn]
  refine ⟨n, ?_⟩
  cases hall : c.performAll jobs with | mk result d =>
  have hd : d.opened = some (t.marked Handle.batchName s.site.connection.database) := by
    have := Connection.opened_performAll (c := c) plain
    rwa [hall] at this
  cases result with
  | error r =>
    let d' := { d with database := s.site.connection.database }
    have hrelease := perform_release (s := u.moved d' n) (ready'.moved d' n) hd explicit
    rw [Connection.part_error hall]
    simp only [Except.mapError, run_bind, run_handle_ask]
    rw [perform_rollbackTo (ready'.moved d n) hd]
    change (Session.run ((u.moved d' n).perform (.control (.release _))).2 _ = _)
    rw [hrelease, hs]
    rfl
  | ok counts =>
    rw [Connection.part_ok hall]
    simp only [Except.mapError, run_bind, run_handle_control]
    rw [perform_release (ready'.moved d n) hd explicit, hs]
    rfl

/-- The result of a batch outside of transactions, and what it leaves. -/
theorem run_wholeBatch (ready : s.Ready) (h : Handle) (plain : ∀ job ∈ jobs, job.IsPlain)
    (closed : s.site.connection.opened = none) :
    ∃ n, s.run (h.wholeBatch jobs) =
      ((s.site.connection.whole jobs).1.mapError Refusal.failure,
        s.moved (s.site.connection.whole jobs).2 n) := by
  let c := s.site.connection.begun
  obtain ⟨n, hn⟩ := run_each (ready.moved c s.site.executed) h plain
  rw [connection_moved, moved_moved] at hn
  have hbegin : s.run (h.ask (.control .begin)) =
      (.ok { count := s.site.connection.changes }, s.moved c s.site.executed) :=
    perform_begin ready closed
  rw [Handle.wholeBatch, run_bind, hbegin]
  simp only [run_guarded, run_bind, hn]
  refine ⟨n, ?_⟩
  cases hall : c.performAll jobs with | mk result d =>
  have hd : d.opened = some { before := s.site.connection.database } := by
    have := Connection.opened_performAll (c := c) plain
    rwa [hall] at this
  have hundo : (s.moved d n).run (Script.ask h.undo) =
      (.ok { count := d.changes },
        s.moved { d with database := s.site.connection.database, opened := none } n) :=
    perform_rollback (ready.moved d n) hd
  cases result with
  | error r =>
    rw [Connection.whole_error hall]
    simp only [Except.mapError, run_bind, hundo]
    rfl
  | ok counts =>
    rw [Connection.whole_ok hall]
    simp only [Except.mapError, run_bind, run_handle_ask]
    by_cases broken : d.database.broken true = true
    · rw [perform_commit_broken (ready.moved d n) hd broken, if_pos broken]
      simp only [run_bind, hundo]
      rfl
    · rw [perform_commit (ready.moved d n) hd broken, if_neg broken]
      rfl

end Session

end Relata
