import Relata.Proofs.Script.Batch

/-! # Places

How far a task is with a store: before the gate, behind it, or somewhere in a transaction.
The place says what the task may ask next and what it can be replied, and whether a
transaction is open at the store that it uses.
-/

namespace Relata

inductive Place
  /-- Before the gate. -/
  | outside
  /-- Behind the gate, and in no transaction. -/
  | held
  /-- In a transaction that has just begun. -/
  | begun
  /-- Among the jobs of a batch that is a transaction of its own. -/
  | batch
  | body
  /-- Between the body of a transaction and its end. -/
  | left
  deriving DecidableEq

/-- A job that neither ends nor divides transactions, other than by shutting the store. -/
def Job.IsLoose (job : Job) : Prop :=
  job.IsPlain ∨ job = .shut

namespace Place

def inTransaction : Place → Bool
  | outside | held => false
  | begun | batch | body | left => true

def mode : Place → Mode
  | body => .transaction
  | _ => .autocommit

def works : Place → Bool
  | held | begun | batch | body => true
  | outside | left => false

def AdmitsControl (p : Place) : Control → Prop
  | .begin => p = held ∨ p = body
  | .commit => p = begun ∨ p = batch ∨ p = left
  | .rollback => p ≠ outside ∧ p ≠ body
  | .savepoint _ => p = body
  | .release _ => p = body
  | .rollbackTo _ => p = body

/-- What a task may ask at a place, where `issues` are the jobs on data that it issues
through handles of either mode. -/
def Admits (issues : Mode → Job → Prop) (p : Place) : Action → Prop
  | .acquire => p = outside ∨ p = body
  | .release => p = held
  | .enter => p = begun
  | .leave => p = body
  | .perform (.control k) => p.AdmitsControl k
  | .perform job => p.works = true ∧ job.IsLoose ∧ (job.counts = true → issues p.mode job)
  | .leaveBehind _ => False
  | .tally => True

/-- What a task can be replied at a place. It passes the gate from outside only, and there
are no transactions inside transactions. -/
def Gives (p : Place) (reply : Reply) : Action → Prop
  | .acquire => reply.isOk = true ↔ p = outside
  | .perform (.control .begin) => reply.isOk = true → p = held
  | _ => True

def afterControl (p : Place) (done : Bool) : Control → Place
  | .begin => if done then begun else p
  | .commit => if done then held else p
  | .rollback => held
  | _ => p

def after (p : Place) (reply : Reply) : Action → Place
  | .acquire => if reply.isOk then held else p
  | .release => outside
  | .enter => body
  | .leave => left
  | .perform (.control k) => p.afterControl reply.isOk k
  | .perform _ => if p = begun then batch else p
  | _ => p

/-- Where a task begins and ends whose calls come through handles of a mode. -/
def base : Mode → Place
  | .autocommit => outside
  | .transaction => body

variable {p : Place} {issues : Mode → Job → Prop} {job : Job} {reply : Reply}

theorem Admits.mono {issues' : Mode → Job → Prop}
    (h : ∀ job, issues p.mode job → issues' p.mode job) {action : Action}
    (admits : p.Admits issues action) : p.Admits issues' action := by
  cases action with
  | perform job =>
    cases job with
    | control k => exact admits
    | command | raw | define | index | probe | shut =>
      obtain ⟨works, loose, issued⟩ := admits
      exact ⟨works, loose, fun counts => h _ (issued counts)⟩
  | acquire | release | enter | leave | leaveBehind | tally => exact admits

theorem admits_perform (works : p.works = true) (loose : job.IsLoose)
    (issued : job.counts = true → issues p.mode job) : p.Admits issues (.perform job) := by
  cases job with
  | control k => exact absurd loose (by simp [Job.IsLoose, Job.IsPlain])
  | command | raw | define | index | probe | shut => exact ⟨works, loose, issued⟩

theorem Admits.counts (admits : p.Admits issues (.perform job)) (counts : job.counts = true) :
    p.works = true ∧ issues p.mode job := by
  cases job with
  | control | probe | shut => cases counts
  | command | raw | define | index => exact ⟨admits.1, admits.2.2 counts⟩

theorem after_of_loose (loose : job.IsLoose) :
    p.after reply (.perform job) = if p = begun then batch else p := by
  cases job with
  | control k => exact absurd loose (by simp [Job.IsLoose, Job.IsPlain])
  | command | raw | define | index | probe | shut => rfl

theorem inTransaction_after_of_loose (loose : job.IsLoose) :
    (p.after reply (.perform job)).inTransaction = p.inTransaction := by
  rw [after_of_loose loose]
  split
  · next h => rw [h]; rfl
  · rfl

theorem Admits.inside (admits : p.Admits issues (.perform job)) : p ≠ outside := by
  rintro rfl
  cases job with
  | control k => cases k <;> simp [Admits, AdmitsControl] at admits
  | command | raw | define | index | probe | shut => exact absurd admits.1 nofun

theorem Admits.after_perform (admits : p.Admits issues (.perform job))
    (gives : p.Gives reply (.perform job)) :
    p.after reply (.perform job) ≠ outside ∧ (p.after reply (.perform job) = body ↔ p = body) := by
  have inside := admits.inside
  cases job with
  | control k =>
    simp only [after]
    cases k with
    | begin =>
      simp only [afterControl]
      split
      · next ok => simp [gives ok]
      · exact ⟨inside, Iff.rfl⟩
    | commit =>
      simp only [afterControl]
      split
      · rcases admits with rfl | rfl | rfl <;> simp
      · exact ⟨inside, Iff.rfl⟩
    | rollback => simp [afterControl, admits.2]
    | savepoint | release | rollbackTo => exact ⟨inside, Iff.rfl⟩
  | command | raw | define | index | probe | shut =>
    rw [after_of_loose admits.2.1]
    split
    · next begun => simp [begun]
    · exact ⟨inside, Iff.rfl⟩

theorem Admits.after_inside {action : Action} (admits : p.Admits issues action)
    (gives : p.Gives reply action) (inside : p ≠ outside) (hne : action ≠ .release) :
    p.after reply action ≠ outside := by
  cases action with
  | acquire =>
    simp only [after]
    split
    · nofun
    · exact inside
  | release => exact absurd rfl hne
  | enter => nofun
  | leave => nofun
  | perform job => exact (admits.after_perform gives).1
  | leaveBehind job => exact admits.elim
  | tally => exact inside

end Place

namespace Connection

variable {c d : Connection} {k : Control} {db : Database}

def IsBegun (c : Connection) : Prop :=
  ∃ t, c.opened = some t ∧ t.implicit = false

def IsBegunOn (c : Connection) (db : Database) : Prop :=
  ∃ t, c.opened = some t ∧ t.implicit = false ∧ t.before = db

theorem isBegun_iff : c.IsBegun ↔ ∃ db, c.IsBegunOn db := by
  constructor
  · rintro ⟨t, ht, explicit⟩
    exact ⟨_, t, ht, explicit, rfl⟩
  · rintro ⟨db, t, ht, explicit, -⟩
    exact ⟨t, ht, explicit⟩

theorem run_control_ok (h : c.control k = .ok d) :
    c.run (.control k) = (.ok { count := c.changes }, d) := by
  rw [run_control, h]

theorem run_control_error {r : Refusal} (h : c.control k = .error r) :
    c.run (.control k) = (.error r, c) := by
  rw [run_control, h]

theorem IsBegunOn.divided (h : c.IsBegunOn db) {name : String}
    (hk : k = .savepoint name ∨ k = .release name ∨ k = .rollbackTo name) :
    (c.run (.control k)).2.IsBegunOn db := by
  obtain ⟨t, ht, explicit, hbefore⟩ := h
  rcases hk with rfl | rfl | rfl
  · rw [run_control_ok (control_savepoint ht)]
    exact ⟨_, rfl, explicit, hbefore⟩
  · rw [run_control, control, ht]
    cases since name c.savepoints with
    | nil => exact ⟨t, ht, explicit, hbefore⟩
    | cons entry rest =>
      simp only [explicit, Bool.and_false, Bool.false_eq_true, if_false]
      exact ⟨_, rfl, rfl, hbefore⟩
  · rw [run_control, control, ht]
    cases since name c.savepoints with
    | nil => exact ⟨t, ht, explicit, hbefore⟩
    | cons entry rest => exact ⟨_, rfl, explicit, hbefore⟩

end Connection

namespace Site

variable {s : Site} {p : Place} {job : Job} {issues : Mode → Job → Prop} {kept : Database}

/-- Whether a transaction is open at a store, as its user supposes from the own place. -/
def Suits (s : Site) (p : Place) : Prop :=
  if s.isOpen = true ∧ p.inTransaction = true then s.connection.IsBegun
  else s.connection.opened = none

def Stands (s : Site) (p : Place) (kept : Database) : Prop :=
  if s.isOpen = true ∧ p.inTransaction = true then s.connection.IsBegunOn kept
  else s.connection.opened = none ∧ s.connection.database = kept

theorem suits_iff : s.Suits p ↔ ∃ kept, s.Stands p kept := by
  simp only [Suits, Stands]
  split
  · exact Connection.isBegun_iff
  · simp

theorem suits_of_isOpen (h : s.isOpen = true) :
    s.Suits p ↔ if p.inTransaction = true then s.connection.IsBegun
      else s.connection.opened = none := by
  simp only [Suits, h, true_and]

theorem stands_of_isOpen (h : s.isOpen = true) :
    s.Stands p kept ↔ if p.inTransaction = true then s.connection.IsBegunOn kept
      else s.connection.opened = none ∧ s.connection.database = kept := by
  simp only [Stands, h, true_and]

theorem stands_moved (h : s.isOpen = true) {c : Connection} {n : Nat} :
    ({ s with connection := c, executed := n } : Site).Stands p kept ↔
      if p.inTransaction = true then c.IsBegunOn kept
      else c.opened = none ∧ c.database = kept :=
  stands_of_isOpen h

theorem stands_of_shut (h : s.isOpen = false) :
    s.Stands p kept ↔ s.connection.opened = none ∧ s.connection.database = kept := by
  simp [Stands, h]

theorem Suits.congr {q : Place} (h : s.Suits p) (hq : q.inTransaction = p.inTransaction) :
    s.Suits q := by
  rw [Suits, hq]
  exact h

theorem Stands.congr {q : Place} (h : s.Stands p kept)
    (hq : q.inTransaction = p.inTransaction) : s.Stands q kept := by
  rw [Stands, hq]
  exact h

theorem Stands.shut (stands : s.Stands p kept) : s.shut.Stands p kept := by
  rw [stands_of_shut rfl, Site.shut]
  rw [Stands] at stands
  split at stands
  · obtain ⟨t, ht, -, rfl⟩ := stands
    simp only [Connection.rollback, ht, and_self]
  · obtain ⟨closed, hdb⟩ := stands
    simp only [Connection.rollback, closed, hdb, and_self]

theorem perform_of_shut (h : s.isOpen = false) (hj : job ≠ .shut) :
    s.perform job = (.error shutFailure, s) := by
  cases job with
  | shut => exact absurd rfl hj
  | command | raw | define | index | control | probe => simp [perform, h]

/-- A job that neither ends nor divides transactions leaves the store in the same place. What
it does lasts where no transaction is open. -/
theorem Stands.perform_loose (stands : s.Stands p kept) (loose : job.IsLoose) :
    ∃ db, (s.perform job).2.Stands p db ∧
      (db = kept ∨ job.counts = true ∧ p.inTransaction = false) := by
  rcases loose with plain | rfl
  · have hj : job ≠ .shut := by
      rintro rfl
      exact plain
    cases h : s.isOpen with
    | false =>
      rw [perform_of_shut h hj]
      exact ⟨kept, stands, .inl rfl⟩
    | true =>
      have opened := Connection.opened_perform_of_plain (c := s.connection) plain
      rw [perform_of_isOpen h hj]
      rw [stands_of_isOpen h] at stands
      simp only [stands_moved h]
      cases within : p.inTransaction with
      | true =>
        rw [within, if_pos rfl] at stands
        simp only [if_true, Connection.IsBegunOn, opened]
        exact ⟨kept, stands, .inl rfl⟩
      | false =>
        rw [within, if_neg nofun] at stands
        simp only [Bool.false_eq_true, if_false, opened]
        refine ⟨_, ⟨stands.1, rfl⟩, ?_⟩
        cases job with
        | probe => exact .inl stands.2
        | command | raw | define | index => exact .inr ⟨rfl, trivial⟩
        | control | shut => exact plain.elim
  · exact ⟨kept, stands.shut, .inl rfl⟩

theorem perform_control (h : s.isOpen = true) (k : Control) :
    s.perform (.control k) =
      ((s.connection.run (.control k)).1.mapError Refusal.failure,
        { s with connection := (s.connection.run (.control k)).2 }) :=
  perform_of_isOpen h (show Job.control k ≠ .shut by simp)

theorem isOk_mapError {ε δ α : Type} (f : ε → δ) (e : Except ε α) :
    (e.mapError f).isOk = e.isOk := by
  cases e <;> rfl

/-- After an end or a division of a transaction the store is as its user supposes, and only a
commit that is done makes what was done last. -/
theorem Stands.perform_control {k : Control} (stands : s.Stands p kept)
    (admits : p.AdmitsControl k) :
    p.Gives (s.perform (.control k)).1 (.perform (.control k)) ∧
      ∃ db,
        (s.perform (.control k)).2.Stands (p.afterControl (s.perform (.control k)).1.isOk k) db ∧
        (db = kept ∨ k = .commit ∧ (s.perform (.control k)).1.isOk = true ∧
          db = s.connection.database) := by
  cases h : s.isOpen with
  | false =>
    rw [stands_of_shut h] at stands
    rw [perform_of_shut h (show Job.control k ≠ .shut by simp)]
    refine ⟨?_, kept, (stands_of_shut h).mpr stands, .inl rfl⟩
    cases k with
    | begin => exact fun ok => absurd ok (by simp [Except.isOk, Except.toBool])
    | commit | rollback | savepoint | release | rollbackTo => trivial
  | true =>
    rw [stands_of_isOpen h] at stands
    rw [Site.perform_control h]
    dsimp only
    simp only [isOk_mapError, stands_moved h]
    cases k with
    | begin =>
      rcases admits with rfl | rfl
      · rw [Connection.run_control_ok (Connection.control_begin stands.1)]
        exact ⟨fun _ => rfl, kept, ⟨_, rfl, rfl, stands.2⟩, .inl rfl⟩
      · have begun : s.connection.IsBegunOn kept := stands
        obtain ⟨t, ht, -⟩ := stands
        have refused : s.connection.control .begin = .error .alreadyOpen := by
          rw [Connection.control, ht]
        rw [Connection.run_control_error refused]
        exact ⟨fun ok => absurd ok (by simp [Except.isOk, Except.toBool, Except.mapError]), kept,
          begun, .inl rfl⟩
    | commit =>
      have begun : s.connection.IsBegunOn kept := by
        rcases admits with rfl | rfl | rfl <;> exact stands
      obtain ⟨t, ht, -⟩ := begun
      refine ⟨trivial, ?_⟩
      by_cases broken : s.connection.database.broken true = true
      · have refused : s.connection.control .commit = .error .brokenReference := by
          rw [Connection.control_commit ht, if_pos broken]
        rw [Connection.run_control_error refused]
        exact ⟨kept, stands, .inl rfl⟩
      · have committed : s.connection.control .commit =
            .ok { s.connection with opened := none } := by
          rw [Connection.control_commit ht, if_neg broken]
        rw [Connection.run_control_ok committed]
        exact ⟨_, ⟨rfl, rfl⟩, .inr ⟨rfl, rfl, rfl⟩⟩
    | rollback =>
      refine ⟨trivial, kept, ?_, .inl rfl⟩
      show (s.connection.run (.control .rollback)).2.opened = none ∧
        (s.connection.run (.control .rollback)).2.database = kept
      split at stands
      · obtain ⟨t, ht, -, rfl⟩ := stands
        rw [Connection.run_control_ok (Connection.control_rollback ht)]
        exact ⟨rfl, rfl⟩
      · have refused : s.connection.control .rollback = .error .nothingToRollback := by
          rw [Connection.control, Connection.rollback, stands.1]
        rw [Connection.run_control_error refused]
        exact stands
    | savepoint name =>
      cases admits
      exact ⟨trivial, kept, Connection.IsBegunOn.divided stands (.inl rfl), .inl rfl⟩
    | release name =>
      cases admits
      exact ⟨trivial, kept, Connection.IsBegunOn.divided stands (.inr (.inl rfl)), .inl rfl⟩
    | rollbackTo name =>
      cases admits
      exact ⟨trivial, kept, Connection.IsBegunOn.divided stands (.inr (.inr rfl)), .inl rfl⟩

/-- A job that a place admits is replied as the place says, and leaves the store as its
user then supposes. What lasts of it was committed, or done outside of transactions. -/
theorem Stands.perform (stands : s.Stands p kept) (admits : p.Admits issues (.perform job)) :
    p.Gives (s.perform job).1 (.perform job) ∧
      ∃ db, (s.perform job).2.Stands (p.after (s.perform job).1 (.perform job)) db ∧
        (db = kept ∨
          (job = .control .commit ∧ (s.perform job).1.isOk = true ∧ db = s.connection.database) ∨
          (job.counts = true ∧ p.inTransaction = false)) := by
  cases job with
  | control k =>
    obtain ⟨gives, db, after, lasts⟩ := stands.perform_control admits
    refine ⟨gives, db, after, lasts.imp_right fun committed => .inl ?_⟩
    exact ⟨congrArg Job.control committed.1, committed.2⟩
  | command | raw | define | index | probe | shut =>
    obtain ⟨-, loose, -⟩ := admits
    obtain ⟨db, after, lasts⟩ := stands.perform_loose loose
    exact ⟨trivial, db, after.congr (Place.inTransaction_after_of_loose loose),
      lasts.imp_right .inr⟩

theorem Suits.perform (suits : s.Suits p) (admits : p.Admits issues (.perform job)) :
    p.Gives (s.perform job).1 (.perform job) ∧
      (s.perform job).2.Suits (p.after (s.perform job).1 (.perform job)) := by
  obtain ⟨kept, stands⟩ := suits_iff.mp suits
  obtain ⟨gives, db, after, -⟩ := stands.perform admits
  exact ⟨gives, suits_iff.mpr ⟨db, after⟩⟩

end Site

end Relata
