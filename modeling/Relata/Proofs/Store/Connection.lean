import Relata.Proofs.Sql.Kind
import Relata.Script.Site

/-! # Connections

What a command leaves of a connection. A selection leaves all of it, even where its text
decides what it is. A job on data leaves the open transaction and its savepoints.
-/

namespace Relata

/-- A job on data. It neither ends nor divides transactions, and shuts nothing. -/
def Job.IsPlain : Job → Prop
  | .command k => k.verb?.isSome = true
  | .raw s => ∀ k, Sql.read s = .ok (some k) → k.verb?.isSome = true
  | .control _ => False
  | .shut => False
  | _ => True

theorem Command.isSome_verb_of_read {k k' : Command} (h : k.verb?.isSome = true)
    (hr : Sql.read k.statement = .ok (some k')) : k'.verb?.isSome = true := by
  obtain ⟨verb, hverb⟩ := Option.isSome_iff_exists.mp h
  exact Option.isSome_iff_exists.mpr ⟨verb, verb_of_read hverb hr⟩

theorem Dialect.eq_of_work? {d : Dialect} {s : Statement} {w : Work} (h : d.work? s = some w) :
    d s = some w := by
  rw [work?] at h
  split at h
  · cases h
  · exact h

namespace Connection

variable {c : Connection} {k : Command}

theorem commit_ok {d : Connection} (h : c.commit = .ok d) : d = { c with opened := none } := by
  rw [commit] at h
  split at h
  · cases h
  · split at h
    · cases h
    · cases h
      rfl

theorem settle_ok {db : Database} {n : Nat} {added : Option Int} {a : Answer} {d : Connection}
    (h : c.settle db n added = .ok (a, d)) : a = { count := n } ∧ d = c.written db n added := by
  rw [settle] at h
  split at h
  · cases h
  · cases h
    exact ⟨rfl, rfl⟩

/-- A command on data leaves the connection as it is, but for what it writes. -/
theorem run?_of_plain (hk : k.verb?.isSome = true) {a : Answer} {d : Connection}
    (h : c.run? k = .ok (a, d)) : d = c ∨ ∃ db n added, d = c.written db n added := by
  cases k with
  | query =>
    obtain ⟨rows, _, hdone⟩ := bind_eq_ok.mp h
    cases hdone
    exact .inl rfl
  | values =>
    cases h
    exact .inl rfl
  | insert =>
    obtain ⟨db, _, hsettle⟩ := bind_eq_ok.mp h
    exact .inr ⟨db, _, _, (settle_ok hsettle).2⟩
  | update =>
    obtain ⟨⟨db, n⟩, _, hsettle⟩ := bind_eq_ok.mp h
    exact .inr ⟨db, n, none, (settle_ok hsettle).2⟩
  | delete =>
    obtain ⟨⟨db, n⟩, _, hsettle⟩ := bind_eq_ok.mp h
    exact .inr ⟨db, n, none, (settle_ok hsettle).2⟩
  | control => cases hk

section Dialect

theorem dialect_control {k : Control} {d : Connection} (h : c.control k = .ok d) :
    d.dialect = c.dialect := by
  cases k with
  | begin =>
    rw [control] at h
    split at h
    · cases h
    · cases h
      rfl
  | commit => rw [commit_ok h]
  | rollback =>
    rw [control, rollback] at h
    split at h
    · cases h
    · cases h
      rfl
  | savepoint name =>
    cases h
    rfl
  | release name =>
    rw [control] at h
    split at h
    · split at h
      · rw [commit_ok h]
      · cases h
        rfl
    · cases h
  | rollbackTo name =>
    rw [control] at h
    split at h
    · cases h
      rfl
    · cases h

theorem dialect_run? {a : Answer} {d : Connection} (h : c.run? k = .ok (a, d)) :
    d.dialect = c.dialect := by
  cases hk : k.verb?.isSome with
  | true => obtain rfl | ⟨_, _, _, rfl⟩ := run?_of_plain hk h <;> rfl
  | false =>
    cases k with
    | control =>
      obtain ⟨_, hcontrol, hdone⟩ := bind_eq_ok.mp h
      cases hdone
      exact dialect_control hcontrol
    | query | values | insert | update | delete => cases hk

theorem dialect_run : (c.run k).2.dialect = c.dialect := by
  rw [run]
  split
  · next h => exact dialect_run? h
  · rw [refused]
    split <;> rfl

theorem dialect_runLimited : (c.runLimited k).2.dialect = c.dialect := by
  rw [runLimited]
  split
  · exact dialect_run
  · rfl

theorem dialect_runText {s : Statement} : (c.runText s).2.dialect = c.dialect := by
  rw [runText]
  split
  · exact dialect_runLimited
  · rfl
  · rfl

/-- What a store knows stays what it is, whatever it is asked to do. -/
theorem dialect_perform (job : Job) : (c.perform job).2.dialect = c.dialect := by
  cases job with
  | command k =>
    rw [perform, execute]
    split
    · exact dialect_runText
    · exact dialect_runLimited
  | raw s =>
    rw [perform, runRaw]
    split
    · rw [carryOut]
      split <;> rfl
    · exact dialect_runText
  | index name table column =>
    rw [perform]
    split <;> rfl
  | control k => exact dialect_run
  | define | probe | shut => rfl

end Dialect

theorem snd_run_of_select (h : k.verb? = some "SELECT") : (c.run k).2 = c := by
  cases k with
  | query p table cs order page =>
    rw [run, run?]
    cases c.database.query p table cs order page <;> rfl
  | values cells => rfl
  | insert | update | delete | control => simp [Command.verb?] at h

theorem snd_runLimited_of_select (h : k.verb? = some "SELECT") : (c.runLimited k).2 = c := by
  rw [runLimited]
  split
  · exact snd_run_of_select h
  · rfl

theorem snd_execute_of_select (h : k.verb? = some "SELECT") : (c.execute k).2 = c := by
  rw [execute]
  split
  · rw [runText]
    split
    · next k' hr => exact snd_runLimited_of_select (Command.verb_of_read h hr)
    · rfl
    · rfl
  · exact snd_runLimited_of_select h

theorem execute_query_ok {p : Projection} {table : String} {cs : List Condition} {order : Order}
    {page : Page} {a : Answer}
    (names : ((Command.query p table cs order page).names.any fun name =>
      Sql.isKeyword name.toList) = false)
    (h : (c.execute (.query p table cs order page)).1 = .ok a) :
    c.database.query p table cs order page = .ok a.rows := by
  rw [execute, names] at h
  rw [if_neg (by simp), runLimited] at h
  split at h
  · rw [run, run?] at h
    cases hq : c.database.query p table cs order page with
    | ok rows => rw [hq] at h; cases h; rfl
    | error r => rw [hq] at h; cases h
  · cases h

theorem opened_run?_of_plain (hk : k.verb?.isSome = true) {a : Answer} {d : Connection}
    (h : c.run? k = .ok (a, d)) : d.opened = c.opened := by
  obtain rfl | ⟨_, _, _, rfl⟩ := run?_of_plain hk h <;> rfl

theorem opened_runLimited_of_plain (hk : k.verb?.isSome = true) :
    (c.runLimited k).2.opened = c.opened := by
  rw [runLimited]
  split
  · rw [run]
    cases h : c.run? k with
    | ok r => exact opened_run?_of_plain hk h
    | error r => exact opened_refused c k r
  · rfl

theorem opened_runText_of_plain {s : Statement}
    (hs : ∀ k, Sql.read s = .ok (some k) → k.verb?.isSome = true) :
    (c.runText s).2.opened = c.opened := by
  rw [runText]
  split
  · next k hr => exact opened_runLimited_of_plain (hs k hr)
  · rfl
  · rfl

theorem opened_carryOut (w : Work) : (c.carryOut w).2.opened = c.opened := by
  rw [carryOut]
  split <;> rfl

theorem opened_perform_of_plain {job : Job} (h : job.IsPlain) :
    (c.perform job).2.opened = c.opened := by
  cases job with
  | command k =>
    rw [perform, execute]
    split
    · exact opened_runText_of_plain fun k' hr => Command.isSome_verb_of_read h hr
    · exact opened_runLimited_of_plain h
  | raw s =>
    rw [perform, runRaw]
    split
    · exact opened_carryOut _
    · exact opened_runText_of_plain h
  | define => rfl
  | index name table column =>
    rw [perform]
    split <;> rfl
  | control => cases h
  | probe => rfl
  | shut => cases h

end Connection

end Relata
