import Relata.Script.Basic
import Relata.Sql.Limit
import Relata.Sql.Reader
import Relata.Store.Connection

/-! # Sites

A site is what the tasks of a store share: its connection and the count of its jobs
on data. A job that fails is counted too, but one that a connection is asked for
after it was shut is not.
-/

namespace Relata

/-- What a statement is in a dialect, where it cannot be read as a command. -/
def Dialect.work? (d : Dialect) (s : Statement) : Option Work :=
  match Sql.read s with
  | .ok _ => none
  | .error _ => d s

namespace Connection

def runLimited (c : Connection) (k : Command) : Except Refusal Answer × Connection :=
  match k.checkLimits with
  | .ok _ => c.run k
  | .error r => (.error r, c)

def runText (c : Connection) (s : Statement) : Except Refusal Answer × Connection :=
  match Sql.read s with
  | .ok (some k) => c.runLimited k
  | .ok none => (.ok { count := c.changes }, c)
  | .error r => (.error r, c)

/-- Carries out a statement of which only the text is given. -/
def runRaw (c : Connection) (s : Statement) : Except Refusal Answer × Connection :=
  match c.dialect.work? s with
  | some w => c.carryOut w
  | none => c.runText s

/-- Carries out a command. Where a name may be read as something else, its text decides. -/
def execute (c : Connection) (k : Command) : Except Refusal Answer × Connection :=
  if k.names.any fun name => Sql.isKeyword name.toList then c.runText k.statement
  else c.runLimited k

def perform (c : Connection) : Job → Except Refusal Answer × Connection
  | .command k => c.execute k
  | .raw s => c.runRaw s
  | .define d => (.ok {}, { c with database := c.database.define d })
  | .index name table column =>
    match c.database.index name table column with
    | .ok database => (.ok {}, { c with database })
    | .error r => (.error r, c)
  | .control k => c.run (.control k)
  | .probe => (.ok {}, c)
  | .shut => (.ok {}, c)

end Connection

def Job.counts : Job → Bool
  | .command _ => true
  | .raw _ => true
  | .define _ => true
  | .index .. => true
  | .control _ => false
  | .probe => false
  | .shut => false

structure Site where
  connection : Connection
  /-- Whether the connection was not shut yet. -/
  isOpen : Bool := true
  executed : Nat := 0

namespace Site

def shutFailure : Failure :=
  .connection "connection is closed"

/-- No more jobs. What was not committed is taken back. -/
def shut (s : Site) : Site :=
  { s with
    isOpen := false
    connection := match s.connection.rollback with
      | .ok c => c
      | .error _ => s.connection }

def perform (s : Site) : Job → Reply × Site
  | .shut => (.ok {}, s.shut)
  | job =>
    if s.isOpen then
      let (answer, connection) := s.connection.perform job
      (answer.mapError Refusal.failure,
        { s with connection, executed := s.executed + if job.counts then 1 else 0 })
    else (.error shutFailure, s)

end Site

/-- A site and the one task that uses it. -/
structure Session where
  site : Site
  /-- Whether the task holds the gate. -/
  holds : Bool := false
  /-- In how many bodies of transactions the task is. -/
  bodies : Nat := 0
  /-- Jobs that are done behind the next one. -/
  behind : List Job := []
  /-- Whether the next jobs are parts of a whole that nothing comes between. -/
  inBatch : Bool := false

namespace Session

def ofDatabase (db : Database) : Session :=
  { site := { connection := { database := db } } }

def busyFailure : Failure :=
  .busy "a transaction is open on this task; use the client passed to its body"

/-- The jobs that were left behind are done; nobody sees whether they fail. -/
def catchUp (s : Session) : Session :=
  { s with site := s.behind.foldl (fun site job => (site.perform job).2) s.site, behind := [] }

/-- Whether the parts of a batch follow a job that was done. -/
def inBatchAfter (before : Bool) (done : Bool) : Job → Bool
  | .control (.savepoint _) => done
  | .control (.release _) => false
  | .control (.rollbackTo _) => before && done
  | _ => before

def perform (s : Session) (job : Job) : Reply × Session :=
  let (reply, site) := s.site.perform job
  let s := { s with site, inBatch := inBatchAfter s.inBatch reply.isOk job }
  (reply, if s.inBatch then s else s.catchUp)

def serve (r : Request) (s : Session) : Reply × Session :=
  match r.action with
  | .acquire =>
    if s.bodies = 0 then (.ok {}, { s with holds := true }) else (.error busyFailure, s)
  | .release => (.ok {}, { s with holds := false })
  | .enter => (.ok {}, { s with bodies := s.bodies + 1 })
  | .leave => (.ok {}, { s with bodies := s.bodies - 1 })
  | .perform job => s.perform job
  | .leaveBehind job => (.ok {}, { s with behind := s.behind ++ [job] })
  | .tally => (.ok { count := s.site.executed }, s)

/-- The result of a script of the one task, and what it leaves behind. -/
def run {α : Type} (s : Session) (script : Script α) : α × Session :=
  script.eval serve s

end Session

end Relata
