import Relata.Text.Name

/-! # Tokens of statements

The text of a statement is words, numbers and signs, with blanks between them where
they would run together. Some words are reserved and are no names.
-/

namespace Relata.Sql

open Text

inductive Token
  | word (cs : List Char)
  | number (cs : List Char)
  | sign (cs : List Char)
  deriving DecidableEq

def Token.chars : Token → List Char
  | word cs => cs
  | number cs => cs
  | sign cs => cs

def isBlank (c : Char) : Bool :=
  c == ' ' || c == '\t' || c == '\n' || c == '\r' || c == '\x0c'

def pairs : List (Char × Char) :=
  [('!', '='), ('<', '='), ('>', '='), ('<', '>'), ('=', '='), ('|', '|')]

def tokensFrom : Nat → List Char → List Token
  | 0, _ => []
  | _ + 1, [] => []
  | fuel + 1, c :: cs =>
    if isBlank c then tokensFrom fuel cs
    else if startsName c then
      .word (c :: cs.takeWhile continuesName) :: tokensFrom fuel (cs.dropWhile continuesName)
    else if isDigit c then
      .number (c :: cs.takeWhile isDigit) :: tokensFrom fuel (cs.dropWhile isDigit)
    else
      match cs with
      | d :: rest =>
        if (c, d) ∈ pairs then .sign [c, d] :: tokensFrom fuel rest
        else .sign [c] :: tokensFrom fuel cs
      | [] => [.sign [c]]

def tokens (text : String) : List Token :=
  tokensFrom (text.length + 1) text.toList

def reserved : List String :=
  ["add", "all", "alter", "and", "as", "autoincrement", "between", "case", "check", "collate",
    "commit", "constraint", "create", "default", "deferrable", "delete", "distinct", "drop",
    "else", "escape", "except", "exists", "foreign", "from", "group", "having", "in", "index",
    "insert", "intersect", "into", "is", "isnull", "join", "limit", "not", "nothing", "notnull",
    "null", "on", "or", "order", "primary", "references", "returning", "select", "set", "table",
    "then", "to", "transaction", "union", "unique", "update", "using", "values", "when", "where"]

def isReserved (cs : List Char) : Bool :=
  reserved.contains (String.ofList (cs.map foldCase))

/-- Words that are names in some places only. -/
def ambiguous : List String :=
  ["cast", "raise", "with"]

/-- Whether a word may be read as something else than a name. -/
def isKeyword (cs : List Char) : Bool :=
  isReserved cs || ambiguous.contains (String.ofList (cs.map foldCase))

end Relata.Sql
