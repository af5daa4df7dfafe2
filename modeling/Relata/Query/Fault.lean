import Relata.Text.Name
import Relata.Value.Basic

/-! # What can be wrong with a query

A descriptor is refused for a cause, and each cause has one wording.
-/

namespace Relata

/-- Why a value cannot be an operand. -/
inductive Unbindable
  /-- Its class has no place in the store, or not under this operator. -/
  | kind (k : Kind)
  /-- A double that is infinite or not a number. -/
  | nonFinite
  /-- A whole number above those of 64 bits with sign. -/
  | beyond
  deriving DecidableEq

def Unbindable.name : Unbindable → String
  | kind k => k.name
  | nonFinite => "non-finite real"
  | beyond => "integer beyond i64"

/-- Why structural data is not the descriptor it stands for. -/
inductive Malformed
  | notRecord (got : String)
  | notObject (what got : String)
  | notFlagOrObject (what got : String)
  | notOrder (got : String)
  | orderEntry
  | directionNotText (field : String)
  | unknownDirection (text : String)
  | notCount (what : String)
  | notList (operator field got : String)
  | nothingToInsert (table : String)
  | nothingRequested (table : String)
  deriving DecidableEq

def Malformed.message : Malformed → String
  | notRecord got => "expected an object, got " ++ got
  | notObject what got => what ++ " must be an object, got " ++ got
  | notFlagOrObject what got => what ++ " must be a boolean or an object, got " ++ got
  | notOrder got => "orderBy must be an object or a list, got " ++ got
  | orderEntry => "orderBy entries must be objects"
  | directionNotText field => "sort direction for " ++ field ++ " must be a string"
  | unknownDirection text => "unknown sort direction '" ++ text ++ "'"
  | notCount what =>
    what ++ " must be a non-negative integer no larger than 9223372036854775807"
  | notList operator field got => operator ++ " on " ++ field ++ " expects a list, got " ++ got
  | nothingToInsert table => "nothing to insert into " ++ table
  | nothingRequested table => "aggregate on " ++ table ++ " requests nothing"

/-- Why a registry of tables and relations is refused. -/
inductive Inconsistent
  /-- Its text is not a declaration. -/
  | unreadable
  | undeclaredColumn (relation table column : String)
  | declaredTwice (table relation : String)
  deriving DecidableEq

def Inconsistent.message : Inconsistent → String
  | unreadable => "the declaration cannot be read"
  | undeclaredColumn relation table column =>
    "relation " ++ relation ++ " uses " ++ table ++ "." ++ column ++
      ", which is not a declared column"
  | declaredTwice table relation =>
    "relation " ++ table ++ "." ++ relation ++ " is declared twice"

/-- Why a query is refused before any statement runs. -/
inductive Fault
  | unbindable (field : String) (why : Unbindable)
  | nothingToSet (table : String)
  | badName (name : String)
  | unknownField (table field : String)
  | malformed (why : Malformed)
  | inconsistent (why : Inconsistent)
  | tooDeep (limit : Nat)
  deriving DecidableEq

def Fault.message : Fault → String
  | unbindable field why =>
    "Invalid parameter type for " ++ field ++ ": " ++ why.name ++ " cannot be bound"
  | nothingToSet table => "No fields to update on " ++ table
  | badName name => "Invalid identifier: '" ++ name ++ "'"
  | unknownField table field => "Unknown field " ++ table ++ "." ++ field
  | malformed why => "Invalid query: " ++ why.message
  | inconsistent why => "Invalid schema: " ++ why.message
  | tooDeep limit => "Include tree nests deeper than " ++ limit.repr ++ " levels"

def checkedName (name : String) : Except Fault String :=
  if Text.isPlainName name.toList then .ok name else .error (.badName name)

end Relata
