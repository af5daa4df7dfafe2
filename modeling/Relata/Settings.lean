import Relata.Number.Word
import Relata.Store.Failure
import Relata.Toml.Decode
import Relata.Toml.Reader

/-! # Settings of a store

Where a store is kept and how it is opened. Settings come from defaults, then from a
document, then from the environment, and are checked last.
-/

namespace Relata

structure Settings where
  path : String := "./till.db"
  busyTimeout : Nat := 5000
  foreignKeys : Bool := true
  wal : Bool := true
  includeDepth : Nat := 8
  logStatements : Bool := false
  deriving DecidableEq

namespace Settings

def memoryPath : String := ":memory:"

/-- A store in memory keeps no log. -/
def inMemory : Settings :=
  { path := memoryPath, wal := false }

def pathParts : List Char → List (List Char)
  | [] => [[]]
  | c :: cs =>
    if c = '/' then [] :: pathParts cs
    else
      match pathParts cs with
      | part :: parts => (c :: part) :: parts
      | [] => [[c]]

/-- Whether the path is that of a store in memory. Slashes and single dots after the
first part of a path do not change where it leads. -/
def isInMemory (s : Settings) : Bool :=
  match pathParts s.path.toList with
  | part :: parts => part == memoryPath.toList && parts.all fun p => p == [] || p == ['.']
  | [] => false

def validate (s : Settings) : Except Failure Unit :=
  if s.path.isEmpty then .error (.settings "database path must not be empty")
  else if s.includeDepth = 0 then .error (.settings "max_include_depth must be at least 1")
  else .ok ()

open Toml

/-- The settings of an entry of a document; what it leaves out has its default. -/
def ofEntry? (entry : Toml) : Option Settings := do
  let d : Settings := {}
  let fs ← fields? entry
  let path ← fs.withDefault? 0 "path" asString? d.path
  let busyTimeout ← fs.withDefault? 1 "busy_timeout_ms" asCount? d.busyTimeout
  let foreignKeys ← fs.withDefault? 2 "foreign_keys" asBool? d.foreignKeys
  let wal ← fs.withDefault? 3 "wal" asBool? d.wal
  let includeDepth ← fs.withDefault? 4 "max_include_depth" asCount? d.includeDepth
  let logStatements ← fs.withDefault? 5 "log_statements" asBool? d.logStatements
  return { path, busyTimeout, foreignKeys, wal, includeDepth, logStatements }

def ofText (text : String) : Except Failure Settings :=
  match (Toml.read? text).bind fun entries =>
      (Fields.named entries).withDefault? 0 "database" ofEntry? {} with
  | some s => .ok s
  | none => .error .unreadableSettings

def count? (text : String) : Option Nat :=
  match Text.unsigned? text.toList with
  | some n => if Word.holds n then some n else none
  | none => none

def flag? (text : String) : Option Bool :=
  let word := String.ofList (text.toList.map Text.foldCase)
  if ["1", "true", "yes", "on"].contains word then some true
  else if ["0", "false", "no", "off"].contains word then some false
  else none

/-- The environment's variables take precedence; one that cannot be read is passed over. -/
def override (s : Settings) (env : String → Option String) : Settings where
  path := (env "TILL_DB_PATH").getD s.path
  busyTimeout := ((env "TILL_BUSY_TIMEOUT_MS").bind count?).getD s.busyTimeout
  foreignKeys := s.foreignKeys
  wal := s.wal
  includeDepth := ((env "TILL_MAX_INCLUDE_DEPTH").bind count?).getD s.includeDepth
  logStatements := ((env "TILL_LOG_STATEMENTS").bind flag?).getD s.logStatements

/-- The settings of a file, if there is one, under those of the environment. -/
def load (file : Option ByteArray) (env : String → Option String) : Except Failure Settings := do
  let s ← match file with
    | none => .ok {}
    | some bytes =>
      match String.fromUTF8? bytes with
      | some text => ofText text
      | none => .error (.settings "stream did not contain valid UTF-8")
  let s := s.override env
  s.validate
  return s

end Settings

end Relata
