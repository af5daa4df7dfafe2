import Relata.Store.Failure

/-! # Refusals

Why a store does not carry out a statement, and how it reports that.
-/

namespace Relata

inductive Refusal
  | syntaxError (near : String)
  | incomplete
  | noTable (table : String)
  | noColumn (column : String)
  | noSuchField (table column : String)
  | repeated (table column : String)
  | missing (table column : String)
  | brokenReference
  | mismatch
  | overflow
  | wrongArguments (function : String)
  | distinctArguments
  /-- A condition speaks of the result of a function. -/
  | misused (function : String)
  | readOnly (table : String)
  /-- An expression is nested too deeply. -/
  | tooDeep
  | tooManyMarks
  | patternTooLong
  | alreadyOpen
  | nothingToCommit
  | nothingToRollback
  | noSavepoint (name : String)
  deriving DecidableEq

namespace Refusal

def message : Refusal → String
  | syntaxError near => "near \"" ++ near ++ "\": syntax error"
  | incomplete => "incomplete input"
  | noTable table => "no such table: " ++ table
  | noColumn column => "no such column: " ++ column
  | noSuchField table column => "table " ++ table ++ " has no column named " ++ column
  | repeated table column => "UNIQUE constraint failed: " ++ table ++ "." ++ column
  | missing table column => "NOT NULL constraint failed: " ++ table ++ "." ++ column
  | brokenReference => "FOREIGN KEY constraint failed"
  | mismatch => "datatype mismatch"
  | overflow => "integer overflow"
  | wrongArguments function => "wrong number of arguments to function " ++ function ++ "()"
  | distinctArguments => "DISTINCT aggregates must have exactly one argument"
  | misused function => "misuse of aggregate: " ++ function ++ "()"
  | readOnly table => "table " ++ table ++ " may not be modified"
  | tooDeep => "Expression tree is too large (maximum depth 1000)"
  | tooManyMarks => "too many SQL variables"
  | patternTooLong => "LIKE or GLOB pattern too complex"
  | alreadyOpen => "cannot start a transaction within a transaction"
  | nothingToCommit => "cannot commit - no transaction is active"
  | nothingToRollback => "cannot rollback - no transaction is active"
  | noSavepoint name => "no such savepoint: " ++ name

def code : Refusal → String
  | repeated .. => "2067"
  | missing .. => "1299"
  | brokenReference => "787"
  | mismatch => "20"
  | _ => "1"

def kind : Refusal → Violation
  | repeated .. => .unique
  | missing .. => .notNull
  | brokenReference => .foreignKey
  | _ => .other

/-- Whether a command is refused only while it is carried out. -/
def isLate : Refusal → Bool
  | repeated .. => true
  | missing .. => true
  | brokenReference => true
  | mismatch => true
  | patternTooLong => true
  | _ => false

def failure (r : Refusal) : Failure :=
  Report.failure (.database r.message (some r.code) r.kind)

end Refusal

end Relata
