import Relata.Calendar.Instant
import Relata.Entries
import Relata.Number.Binary64

/-! # Typed values

What a field of a record holds. Scalars are what the store can keep; lists and
nested records come from related rows and from structural data.
-/

namespace Relata

inductive Value
  | null
  | bool (b : Bool)
  | integer (n : Int64)
  | real (x : Binary64)
  | text (s : String)
  | blob (bytes : List UInt8)
  | timestamp (t : Instant)
  | date (d : Date)
  | array (items : List Value)
  | object (fields : List (String × Value))
  deriving Inhabited

abbrev Record := Entries Value

inductive Kind
  | null | boolean | integer | real | text | blob | timestamp | date | array | object
  deriving DecidableEq

def Kind.name : Kind → String
  | null => "null"
  | boolean => "boolean"
  | integer => "integer"
  | real => "real"
  | text => "text"
  | blob => "blob"
  | timestamp => "timestamp"
  | date => "date"
  | array => "array"
  | object => "object"

namespace Value

def kind : Value → Kind
  | null => .null
  | bool _ => .boolean
  | integer _ => .integer
  | real _ => .real
  | text _ => .text
  | blob _ => .blob
  | timestamp _ => .timestamp
  | date _ => .date
  | array _ => .array
  | object _ => .object

def isNull : Value → Bool
  | null => true
  | _ => false

def asText? : Value → Option String
  | text s => some s
  | _ => none

/-- Truth values count as one and zero. -/
def asInteger? : Value → Option Int64
  | integer n => some n
  | bool b => some (if b then 1 else 0)
  | _ => none

/-- Integers count as the nearest double. -/
def asReal? : Value → Option Binary64
  | real x => some x
  | integer n => some (.ofInt n.toInt)
  | _ => none

/-- One and zero count as truth values, since the store keeps them so. -/
def asBool? : Value → Option Bool
  | bool b => some b
  | integer n => if n = 0 then some false else if n = 1 then some true else none
  | _ => none

/-- Texts in the form of RFC 3339 count as instants, since the store keeps them so. -/
def asInstant? : Value → Option Instant
  | timestamp t => some t
  | text s => Instant.ofText? s
  | _ => none

def asArray? : Value → Option (List Value)
  | array items => some items
  | _ => none

def asObject? : Value → Option Record
  | object fields => some fields
  | _ => none

end Value

namespace Record

/-- The field that identifies a row of its table. -/
def key : String := "id"

def withoutNulls (r : Record) : Record :=
  r.filter fun e => !e.2.isNull

/-- Whether a record sets anything besides the identity of a row. -/
def hasAssignments (r : Record) : Bool :=
  r.any fun e => e.1 ≠ key

end Record

end Relata
