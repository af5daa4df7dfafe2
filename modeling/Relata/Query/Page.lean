import Relata.Json.Basic
import Relata.Query.Fault

/-! # Pages of rows

A page leaves out the first rows and takes a number of those that follow. It can be
cut from a list, or be written as a clause for the store to cut.
-/

namespace Relata

structure Page where
  take : Option UInt64 := none
  skip : Option UInt64 := none
  deriving DecidableEq

namespace Page

def isEmpty (page : Page) : Bool :=
  page.take.isNone && page.skip.isNone

def largest : Nat := 0x7fffffffffffffff

/-- A count as a clause holds it: those above the largest become the largest. -/
def clamp (n : UInt64) : Nat :=
  min n.toNat largest

/-- The clause that cuts a page; a limit below zero stands for none. -/
def clause (page : Page) : String :=
  match page.take, page.skip with
  | none, none => ""
  | some take, none => "LIMIT " ++ (clamp take).repr
  | some take, some skip => "LIMIT " ++ (clamp take).repr ++ " OFFSET " ++ (clamp skip).repr
  | none, some skip => "LIMIT -1 OFFSET " ++ (clamp skip).repr

def slice {α : Type} (page : Page) (rows : List α) : List α :=
  let rest := match page.skip with
    | some n => rows.drop n.toNat
    | none => rows
  match page.take with
  | some n => rest.take n.toNat
  | none => rest

/-- A count under a name; null is the same as no member. -/
def count (members : List (String × Json)) (name : String) : Except Fault (Option UInt64) :=
  match members.lookup name with
  | none => .ok none
  | some .null => .ok none
  | some (.number (.whole n)) =>
    if 0 ≤ n then .ok (some n.toUInt64) else .error (.malformed (.notCount name))
  | some _ => .error (.malformed (.notCount name))

def ofMembers (members : List (String × Json)) : Except Fault Page := do
  let take ← count members "take"
  let skip ← count members "skip"
  return { take, skip }

end Page

end Relata
