import Relata.Sql.Command
import Relata.Sql.Token
import Relata.Store.Refusal

/-! # Reading statements

The text of a statement is read as the command that it says, with the scalars of its
marks taken from left to right. In an expression `AND` binds tighter than `OR`, and
parentheses group. A word that begins something which no command contains is refused at
the first token that cannot go on with it.

Commands take their values from marks. What else a store runs, such as statements with literals
or functions, is left to its dialect.
-/

namespace Relata.Sql

open Text (foldCase)

/-- What is still to be read. -/
structure Input where
  tokens : List Token
  params : List Scalar

abbrev Reader := StateT Input (Except Refusal)

namespace Reader

/-- Refuses at the next token. -/
def refuse {α : Type} : Reader α := fun i =>
  match i.tokens with
  | [] => .error .incomplete
  | t :: _ => .error (.syntaxError (String.ofList t.chars))

def peek : Reader (Option Token) := fun i => .ok (i.tokens.head?, i)

def skip : Reader Unit := fun i => .ok ((), { i with tokens := i.tokens.drop 1 })

def isWord (word : String) : Token → Bool
  | .word cs => cs.map foldCase == word.toList
  | _ => false

def word? (word : String) : Reader Bool := do
  match ← peek with
  | some t => if isWord word t then skip; return true else return false
  | none => return false

def anyWord? (words : List String) : Reader Bool := do
  match ← peek with
  | some t => if words.any fun w => isWord w t then skip; return true else return false
  | none => return false

def word (w : String) : Reader Unit := do
  if ← word? w then return () else refuse

def sign? (s : String) : Reader Bool := do
  match ← peek with
  | some (.sign cs) => if cs = s.toList then skip; return true else return false
  | _ => return false

def sign (s : String) : Reader Unit := do
  if ← sign? s then return () else refuse

def name : Reader String := do
  match ← peek with
  | some (.word cs) => if isReserved cs then refuse else skip; return String.ofList cs
  | _ => refuse

/-- What follows a word that begins an expression: a negation goes on with it, and so does
a name. Nothing else does. -/
def unfinished {α : Type} : Nat → Reader α
  | 0 => refuse
  | fuel + 1 => do
    if ← word? "not" then unfinished fuel
    else
      let _ ← anyWord? ["like", "asc", "desc"]
      refuse

/-- The word that an expression begins with, which is a name or a constant. -/
def operand : Reader String := do
  if ← word? "null" then return "null"
  else if ← anyWord? ["not", "case"] then fun i => unfinished (i.tokens.length + 1) i
  else if ← anyWord? ["cast", "exists", "raise"] then refuse
  else name

/-- The word after an opening parenthesis, where a query may begin instead. -/
def openedOperand : Reader String := do
  if ← word? "select" then fun i => unfinished (i.tokens.length + 1) i
  else if ← word? "with" then
    let _ ← word? "like"
    refuse
  else if ← word? "values" then refuse
  else operand

/-- The word that rows are sorted by. What is negated is a name, too. -/
def sortOperand : Reader String := do
  if ← word? "not" then
    match ← peek with
    | some t =>
      if isWord "asc" t || isWord "desc" t then skip; return String.ofList t.chars else refuse
    | none => refuse
  else operand

def argument : Reader String := do
  match ← peek with
  | some t =>
    if isWord "all" t || isWord "distinct" t then skip; return String.ofList t.chars
    else if isWord "order" t then skip; refuse
    else operand
  | none => refuse

def number : Reader Nat := do
  match ← peek with
  | some (.number cs) => skip; return Text.valueOfDigits cs
  | _ => refuse

/-- The scalar of the next mark; null if none was given. -/
def mark : Reader Scalar := do
  sign "?"
  fun i => .ok (i.params.headD .null, { i with params := i.params.drop 1 })

def list {α : Type} (item : Reader α) : Nat → Reader (List α)
  | 0 => refuse
  | fuel + 1 => do
    let a ← item
    if ← sign? "," then
      let rest ← list item fuel
      return a :: rest
    else return [a]

def listOf {α : Type} (item : Reader α) : Reader (List α) := fun i =>
  list item (i.tokens.length + 1) i

def comparison? : Reader (Option Comparison) := do
  if ← sign? "=" then return some .equal
  else if ← sign? "!=" then return some .different
  else if ← sign? "<>" then return some .different
  else if ← sign? "<=" then return some .atMost
  else if ← sign? "<" then return some .less
  else if ← sign? ">=" then return some .atLeast
  else if ← sign? ">" then return some .greater
  else return none

/-- What follows a column in a condition. -/
def predicate (column : String) : Reader Condition := do
  if ← word? "is" then
    if ← word? "not" then word "null"; return .notNull column
    else word "null"; return .isNull column
  else if ← word? "not" then
    word "in"
    sign "("
    let operands ← listOf mark
    sign ")"
    return .outside column operands
  else if ← word? "in" then
    sign "("
    let operands ← listOf mark
    sign ")"
    return .among column operands
  else if ← word? "like" then
    match ← mark with
    | .text pattern => return .like column pattern
    | _ => return .constant false
  else
    match ← comparison? with
    | some how => return .compare column how (← mark)
    | none => refuse

def grouped : List (List Condition) → Condition
  | [part] => .group .and [part]
  | parts => .group .or parts

mutual

/-- A disjunction of conjunctions, whose first word is read as it has to be. -/
def disjunction : Nat → Reader String → Reader (List (List Condition))
  | 0, _ => refuse
  | fuel + 1, first => do
    let part ← conjunction fuel first
    if ← word? "or" then
      let parts ← disjunction fuel operand
      return part :: parts
    else return [part]

def conjunction : Nat → Reader String → Reader (List Condition)
  | 0, _ => refuse
  | fuel + 1, first => do
    let c ← primary fuel first
    if ← word? "and" then
      let cs ← conjunction fuel operand
      return c :: cs
    else return [c]

/-- A condition of a column, of two numbers, or in parentheses. -/
def primary : Nat → Reader String → Reader Condition
  | 0, _ => refuse
  | fuel + 1, first => do
    if ← sign? "(" then
      let parts ← disjunction fuel openedOperand
      sign ")"
      return grouped parts
    else
      match ← peek with
      | some (.number _) =>
        let a ← number
        sign "="
        let b ← number
        return .constant (a == b)
      | _ => predicate (← first)

end

def expression : Reader (List Condition) := do
  match ← (fun i => disjunction (3 * i.tokens.length + 3) operand i) with
  | [part] => return part
  | parts => return [.group .or parts]

def whereClause : Reader (List Condition) := do
  if ← word? "where" then expression else return []

def orderKey : Reader (String × Direction) := do
  let field ← sortOperand
  if ← word? "desc" then return (field, .descending)
  else
    let _ ← word? "asc"
    return (field, .ascending)

def orderClause : Reader Order := do
  if ← word? "order" then
    word "by"
    listOf orderKey
  else return []

def count? : Reader (Option UInt64) := do
  if ← sign? "-" then
    let _ ← number
    return none
  else return some (UInt64.ofNat (← number))

def pageClause : Reader Page := do
  if ← word? "limit" then
    let take ← count?
    if ← word? "offset" then return { take, skip := ← count? } else return { take }
  else return {}

inductive Item
  | cell (name : String) (s : Scalar)
  | column (name : String)
  | measure (m : Measure)

def label (default : String) : Reader String := do
  if ← word? "as" then name else return default

def folds : List Fold := [.count, .sum, .avg, .min, .max]

def fold? (name : String) : Option Fold :=
  folds.find? fun f => Text.sameFolded f.keyword name

def item : Reader Item := do
  match ← peek with
  | some (.sign ['?']) =>
    let s ← mark
    return .cell (← label "?") s
  | some (.number cs) =>
    let n ← number
    return .cell (← label (String.ofList cs)) (.integer (Int64.ofNat n))
  | _ =>
    let first ← name
    if ← sign? "(" then
      match fold? first with
      | none => refuse
      | some fold =>
        let column ← if ← sign? "*" then pure none else some <$> argument
        sign ")"
        let shown := first ++ "(" ++ column.getD "*" ++ ")"
        return .measure ⟨fold, column, ← label shown⟩
    else return .column first

def projection : Reader (Option (List Item)) := do
  if ← sign? "*" then return none else return some (← listOf item)

def projectionOf? (items : List Item) : Option Projection :=
  let columns := items.filterMap fun | .column name => some name | _ => none
  let measures := items.filterMap fun | .measure m => some m | _ => none
  if columns.length = items.length then some (.columns columns)
  else if measures.length = items.length then some (.measures measures)
  else none

def cells? (items : List Item) : Option (List (String × Scalar)) :=
  items.mapM fun | .cell name s => some (name, s) | _ => none

def selection : Reader Command := do
  let shown ← projection
  if ← word? "from" then
    let table ← name
    let cs ← whereClause
    let order ← orderClause
    let page ← pageClause
    match shown with
    | none => return .query .everything table cs order page
    | some items =>
      match projectionOf? items with
      | some p => return .query p table cs order page
      | none => refuse
  else
    match shown.bind cells? with
    | some cells => return .values cells
    | none => refuse

def insertion : Reader Command := do
  word "into"
  let table ← name
  sign "("
  let columns ← listOf name
  sign ")"
  word "values"
  sign "("
  let operands ← listOf mark
  sign ")"
  return .insert table (columns.zip operands)

def assigned : Reader (String × Scalar) := do
  let column ← name
  sign "="
  return (column, ← mark)

def control : Reader (Option Control) := do
  if ← word? "begin" then
    let _ ← word? "transaction"
    return some .begin
  else if ← word? "commit" then
    let _ ← word? "transaction"
    return some .commit
  else if ← word? "end" then
    let _ ← word? "transaction"
    return some .commit
  else if ← word? "rollback" then
    let _ ← word? "transaction"
    if ← word? "to" then
      let _ ← word? "savepoint"
      return some (.rollbackTo (← name))
    else return some .rollback
  else if ← word? "savepoint" then return some (.savepoint (← name))
  else if ← word? "release" then
    let _ ← word? "savepoint"
    return some (.release (← name))
  else return none

def command : Reader Command := do
  if ← word? "select" then selection
  else if ← word? "insert" then insertion
  else if ← word? "update" then
    if ← word? "or" then refuse
    let table ← name
    word "set"
    let cells ← listOf assigned
    return .update table cells (← whereClause)
  else if ← word? "delete" then
    word "from"
    let table ← name
    return .delete table (← whereClause)
  else
    match ← control with
    | some c => return .control c
    | none => refuse

/-- A command and nothing after it but a semicolon. -/
def whole : Reader Command := do
  let c ← command
  let _ ← sign? ";"
  match ← peek with
  | none => return c
  | some _ => refuse

end Reader

/-- The command of a statement; none if its text is empty. -/
def read (s : Statement) : Except Refusal (Option Command) :=
  match tokens s.sql with
  | [] => .ok none
  | ts => (Reader.whole ⟨ts, s.params⟩).map fun (c, _) => some c

end Relata.Sql
