import Relata.Number.Binary64

/-! # Structural data

The data that queries arrive in. Objects keep the order in which their members
are written, and numbers keep how they were written: whole numbers apart from the
others.
-/

namespace Relata

inductive Json.Number
  /-- A whole number of 64 bits with sign. -/
  | whole (n : Int64)
  /-- A whole number beyond those that still fits 64 bits. -/
  | beyond (n : UInt64)
  /-- Any other number, rounded to a double. -/
  | real (x : Binary64)
  deriving DecidableEq

inductive Json
  | null
  | bool (b : Bool)
  | number (n : Json.Number)
  | string (s : String)
  | array (items : List Json)
  | object (members : List (String × Json))
  deriving Inhabited

namespace Json

def kind : Json → String
  | null => "null"
  | bool _ => "boolean"
  | number _ => "number"
  | string _ => "string"
  | array _ => "array"
  | object _ => "object"

def member? (name : String) (members : List (String × Json)) : Option Json :=
  members.lookup name

def isTrue : Json → Bool
  | bool b => b
  | _ => false

end Json

end Relata
