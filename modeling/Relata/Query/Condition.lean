import Relata.Number.Layout
import Relata.Query.Filter

/-! # Conditions

A condition is a filter as the store understands it: every operand is a scalar,
every name is plain, and groups without parts are gone. It is written with a
question mark for each operand, and its operands are listed in the order of their
marks.
-/

namespace Relata

inductive Condition
  /-- Holds of every row or of none. -/
  | constant (holds : Bool)
  | isNull (column : String)
  | notNull (column : String)
  | compare (column : String) (how : Comparison) (operand : Scalar)
  | among (column : String) (operands : List Scalar)
  | outside (column : String) (operands : List Scalar)
  | like (column : String) (pattern : String)
  /-- Parts that are conjunctions, joined by a connective. -/
  | group (c : Connective) (parts : List (List Condition))

def Comparison.sign : Comparison → String
  | equal => "="
  | different => "!="
  | less => "<"
  | atMost => "<="
  | greater => ">"
  | atLeast => ">="

def Connective.keyword : Connective → String
  | and => " AND "
  | or => " OR "

namespace Condition

open Text (separated)

def marks (count : Nat) : String :=
  separated ", " (List.replicate count "?")

mutual

/-- The text of a condition. Groups stand in parentheses. -/
def text : Condition → String
  | constant holds => if holds then "1 = 1" else "0 = 1"
  | isNull column => column ++ " IS NULL"
  | notNull column => column ++ " IS NOT NULL"
  | compare column how _ => column ++ " " ++ how.sign ++ " ?"
  | among column operands => column ++ " IN (" ++ marks operands.length ++ ")"
  | outside column operands => column ++ " NOT IN (" ++ marks operands.length ++ ")"
  | like column _ => column ++ " LIKE ?"
  | group c parts => "(" ++ separated c.keyword (partTexts parts) ++ ")"

def texts : List Condition → List String
  | [] => []
  | c :: cs => text c :: texts cs

def partTexts : List (List Condition) → List String
  | [] => []
  | part :: parts => separated " AND " (texts part) :: partTexts parts

end

mutual

/-- The operands of a condition, in the order of their marks. -/
def operands : Condition → List Scalar
  | constant _ => []
  | isNull _ => []
  | notNull _ => []
  | compare _ _ operand => [operand]
  | among _ os => os
  | outside _ os => os
  | like _ pattern => [.text pattern]
  | group _ parts => operandsOfParts parts

def operandsOfAll : List Condition → List Scalar
  | [] => []
  | c :: cs => operands c ++ operandsOfAll cs

def operandsOfParts : List (List Condition) → List Scalar
  | [] => []
  | part :: parts => operandsOfAll part ++ operandsOfParts parts

end

mutual

/-- The columns that a condition names, as often as it names them. -/
def columns : Condition → List String
  | constant _ => []
  | isNull column => [column]
  | notNull column => [column]
  | compare column _ _ => [column]
  | among column _ => [column]
  | outside column _ => [column]
  | like column _ => [column]
  | group _ parts => columnsOfParts parts

def columnsOfAll : List Condition → List String
  | [] => []
  | c :: cs => columns c ++ columnsOfAll cs

def columnsOfParts : List (List Condition) → List String
  | [] => []
  | part :: parts => columnsOfAll part ++ columnsOfParts parts

end

def conjunctionText (cs : List Condition) : String :=
  separated " AND " (texts cs)

end Condition

namespace Test

/-- Every operand as a scalar, or the fault of the first that is none. -/
def scalars (field : String) : List Value → Except Fault (List Scalar)
  | [] => .ok []
  | v :: vs => do
    let s ← v.toScalar field
    let ss ← scalars field vs
    return s :: ss

/-- Numbers stand in a pattern with their digits and a point, never with an exponent. -/
def needleLayout : Layout where
  positional _ := true
  wholeMark := false
  mantissaMark := false
  exponentWidth := 1

/-- The text that a value stands for in a pattern; only texts and finite numbers do. -/
def needle (field : String) : Value → Except Fault String
  | .text s => .ok s
  | .integer n => .ok (String.ofList (Text.signed n.toInt))
  | .real x =>
    if x.isFinite then .ok (String.ofList (needleLayout.chars x.isNegative (.shortest .up x)))
    else .error (.unbindable field (.kind .real))
  | other => .error (.unbindable field (.kind other.kind))

def pattern (place : Placement) (needle : String) : String :=
  match place with
  | .anywhere => "%" ++ needle ++ "%"
  | .atStart => needle ++ "%"
  | .atEnd => "%" ++ needle

/-- The condition of a test of a plain name. A comparison with null asks whether
the field is null, and an empty list is decided without looking at the row. -/
def condition (field : String) : Test → Except Fault Condition
  | .isNull => .ok (.isNull field)
  | .compare .equal .null => .ok (.isNull field)
  | .compare .different .null => .ok (.notNull field)
  | .compare how v => (v.toScalar field).map (.compare field how)
  | .among [] => .ok (.constant false)
  | .outside [] => .ok (.constant true)
  | .among vs => (scalars field vs).map (.among field)
  | .outside vs => (scalars field vs).map (.outside field)
  | .like place v => (needle field v).map fun s => .like field (pattern place s)

end Test

namespace Filter

mutual

/-- The condition of a node; none for a group without parts. -/
def nodeCondition? : Node → Except Fault (Option Condition)
  | .test field t => do
    let field ← checkedName field
    let c ← t.condition field
    return some c
  | .group c children => do
    let parts ← parts children
    return if parts.isEmpty then none else some (.group c parts)

def conditions : List Node → Except Fault (List Condition)
  | [] => .ok []
  | node :: nodes => do
    let c ← nodeCondition? node
    let cs ← conditions nodes
    return c.toList ++ cs

def parts : List (List Node) → Except Fault (List (List Condition))
  | [] => .ok []
  | child :: children => do
    let part ← conditions child
    let rest ← parts children
    return if part.isEmpty then rest else part :: rest

end

end Filter

end Relata
