import Relata.Query.Fault
import Relata.Text.Ascii
import Relata.Text.Search

/-! # Failures

What an operation on a store can fail with: a fault of the query itself, or what
the store reports, sorted into categories that a caller can act on.
-/

namespace Relata

inductive Failure
  | fault (why : Fault)
  | duplicate (field value : String)
  | foreignKey (message : String)
  | busy (message : String)
  | connection (message : String)
  | query (message : String)
  | transaction (message : String)
  | settings (message : String)
  /-- Settings whose text is no document of settings. -/
  | unreadableSettings
  | notInitialized
  | internal (message : String)
  deriving DecidableEq

def Failure.message : Failure → String
  | fault why => why.message
  | duplicate field value => "Duplicate " ++ field ++ ": '" ++ value ++ "' already exists"
  | foreignKey message => "Foreign key violation: " ++ message
  | busy message => "Database busy: " ++ message
  | connection message => "Connection failed: " ++ message
  | query message => "Query failed: " ++ message
  | transaction message => "Transaction failed: " ++ message
  | settings message => "Invalid configuration: " ++ message
  | unreadableSettings => "Invalid configuration: the settings cannot be read"
  | notInitialized => "Database client not initialized"
  | internal message => "Internal database error: " ++ message

/-- What kind of rule a store says was broken. -/
inductive Violation
  | unique | foreignKey | notNull | check | other
  deriving DecidableEq

/-- What a store or the way to it reports. -/
inductive Report
  | database (message : String) (code : Option String) (kind : Violation)
  | io (message : String)
  | tls (message : String)
  | protocol (message : String)
  | configuration (message : String)
  | rowNotFound
  | columnNotFound (name : String)
  | typeNotFound (name : String)
  | poolTimedOut
  | poolClosed
  | workerCrashed

namespace Report

def text : Report → String
  | database message _ _ => "error returned from database: " ++ message
  | io message => "error communicating with database: " ++ message
  | tls message => "error occurred while attempting to establish a TLS connection: " ++ message
  | protocol message => "encountered unexpected or invalid data: " ++ message
  | configuration message => "error with configuration: " ++ message
  | rowNotFound =>
    "no rows returned by a query that expected to return at least one row"
  | columnNotFound name => "no column found for name: " ++ name
  | typeNotFound name => "type named " ++ name ++ " not found"
  | poolTimedOut => "pool timed out while waiting for an open connection"
  | poolClosed => "attempted to acquire a connection on a closed pool"
  | workerCrashed => "attempted to communicate with a crashed background worker"

/-- The low byte of a code of 32 bits, which is the general class of an error. -/
def primaryCode? (code : Option String) : Option Int :=
  match code.bind fun c => Text.integer? c.toList with
  | some n => if -0x80000000 ≤ n ∧ n < 0x80000000 then some (n % 256) else none
  | none => none

open Text (occurs secondPiece?)

def duplicateField (message : String) : String :=
  (secondPiece? "UNIQUE constraint failed: " message).getD "unknown"

def ofDatabase (message : String) (code : Option String) (kind : Violation) : Failure :=
  if kind = .unique || occurs "UNIQUE constraint failed" message then
    .duplicate (duplicateField message) "unknown"
  else if kind = .foreignKey || occurs "FOREIGN KEY constraint failed" message then
    .foreignKey message
  else if primaryCode? code = some 5 || primaryCode? code = some 6 ||
      occurs "is locked" message then
    .busy message
  else if occurs "within a transaction" message || occurs "no transaction is active" message then
    .transaction message
  else .query message

def failure (r : Report) : Failure :=
  match r with
  | database message code kind => ofDatabase message code kind
  | io _ => .connection r.text
  | tls _ => .connection r.text
  | protocol _ => .connection r.text
  | configuration _ => .settings r.text
  | _ => .internal r.text

end Report

end Relata
