import Relata.Json.Reader
import Relata.Number.Binary64
import Relata.Number.Word
import Relata.Text.Ascii
import Relata.Toml.Table

/-! # Reading configuration documents

The grammar of TOML 1.0, on characters. A document is a sequence of lines: headers,
keys with their values, comments and empty lines.
-/

namespace Relata.Toml

open Text

def skipBlanks (cs : List Char) : List Char :=
  cs.dropWhile fun c => c == ' ' || c == '\t'

/-- A character that may stand in a comment or a string as it is. -/
def isPlain (c : Char) : Bool :=
  c == '\t' || (0x20 ≤ c.toNat && c.toNat ≤ 0x7E) || 0x80 ≤ c.toNat

def lineEnd? : List Char → Option (List Char)
  | '\n' :: cs => some cs
  | '\r' :: '\n' :: cs => some cs
  | _ => none

def skipComment : List Char → List Char
  | '#' :: cs => cs.dropWhile isPlain
  | cs => cs

/-- The rest of a line after its content: blanks, a comment, and the end. -/
def finishLine? (cs : List Char) : Option (List Char) :=
  match skipComment (skipBlanks cs) with
  | [] => some []
  | cs => lineEnd? cs

/-- Blanks, comments and ends of lines, as they may stand inside a list. -/
def skipLines : Nat → List Char → List Char
  | 0, cs => cs
  | fuel + 1, cs =>
    let cs := skipComment (skipBlanks cs)
    match lineEnd? cs with
    | some rest => skipLines fuel rest
    | none => cs

def codePoint? (count : Nat) (cs : List Char) : Option (Char × List Char) := do
  let digits := cs.take count
  if digits.length ≠ count then none
  else
    let n ← digits.foldlM (fun n c => (Json.hexValue? c).map (16 * n + ·)) 0
    if n.isValidChar then some (Char.ofNat n, cs.drop count) else none

def escaped? : List Char → Option (Char × List Char)
  | 'b' :: cs => some ('\x08', cs)
  | 't' :: cs => some ('\t', cs)
  | 'n' :: cs => some ('\n', cs)
  | 'f' :: cs => some ('\x0c', cs)
  | 'r' :: cs => some ('\r', cs)
  | '"' :: cs => some ('"', cs)
  | '\\' :: cs => some ('\\', cs)
  | 'u' :: cs => codePoint? 4 cs
  | 'U' :: cs => codePoint? 8 cs
  | _ => none

def basic? : Nat → List Char → Option (List Char × List Char)
  | 0, _ => none
  | _ + 1, [] => none
  | fuel + 1, c :: cs =>
    if c = '"' then some ([], cs)
    else if c = '\\' then do
      let (d, cs) ← escaped? cs
      let (s, cs) ← basic? fuel cs
      some (d :: s, cs)
    else if isPlain c then do
      let (s, cs) ← basic? fuel cs
      some (c :: s, cs)
    else none

def literal? : List Char → Option (List Char × List Char)
  | [] => none
  | c :: cs =>
    if c = '\'' then some ([], cs)
    else if isPlain c then (literal? cs).map fun (s, cs) => (c :: s, cs)
    else none

/-- Blanks and ends of lines after a backslash at the end of a line. -/
def skipJoin : Nat → List Char → List Char
  | 0, cs => cs
  | fuel + 1, cs =>
    let cs := skipBlanks cs
    match lineEnd? cs with
    | some rest => skipJoin fuel rest
    | none => cs

/-- Up to two quotes may stand before the three that close a string of lines. -/
def closing? (quote : Char) (cs : List Char) : Option (List Char × List Char) :=
  let quotes := cs.takeWhile (· == quote)
  if quotes.length < 3 || 5 < quotes.length then none
  else some (quotes.drop 3, cs.dropWhile (· == quote))

def basicLines? : Nat → List Char → Option (List Char × List Char)
  | 0, _ => none
  | _ + 1, [] => none
  | fuel + 1, c :: cs =>
    if c = '"' then
      match closing? '"' (c :: cs) with
      | some done => some done
      | none =>
        if ['"', '"'].isPrefixOf cs then none
        else (basicLines? fuel cs).map fun (s, cs) => (c :: s, cs)
    else if c = '\\' then
      match lineEnd? (skipBlanks cs) with
      | some rest => basicLines? fuel (skipJoin rest.length rest)
      | none => do
        let (d, cs) ← escaped? cs
        let (s, cs) ← basicLines? fuel cs
        some (d :: s, cs)
    else
      match lineEnd? (c :: cs) with
      | some rest => (basicLines? fuel rest).map fun (s, cs) => ('\n' :: s, cs)
      | none =>
        if isPlain c then (basicLines? fuel cs).map fun (s, cs) => (c :: s, cs) else none

def literalLines? : Nat → List Char → Option (List Char × List Char)
  | 0, _ => none
  | _ + 1, [] => none
  | fuel + 1, c :: cs =>
    if c = '\'' then
      match closing? '\'' (c :: cs) with
      | some done => some done
      | none =>
        if ['\'', '\''].isPrefixOf cs then none
        else (literalLines? fuel cs).map fun (s, cs) => (c :: s, cs)
    else
      match lineEnd? (c :: cs) with
      | some rest => (literalLines? fuel rest).map fun (s, cs) => ('\n' :: s, cs)
      | none =>
        if isPlain c then (literalLines? fuel cs).map fun (s, cs) => (c :: s, cs) else none

/-- An end of line right after the opening quotes does not count. -/
def trimFirst (cs : List Char) : List Char :=
  (lineEnd? cs).getD cs

/-- A string in front, in one of its four forms. -/
def string? (cs : List Char) : Option (List Char × List Char) :=
  match cs with
  | '"' :: '"' :: '"' :: cs => basicLines? (cs.length + 1) (trimFirst cs)
  | '\'' :: '\'' :: '\'' :: cs => literalLines? (cs.length + 1) (trimFirst cs)
  | '"' :: cs => basic? (cs.length + 1) cs
  | '\'' :: cs => literal? cs
  | _ => none

def isBare (c : Char) : Bool :=
  isLetter c || isDigit c || c == '_' || c == '-'

def simpleKey? (cs : List Char) : Option (String × List Char) :=
  match cs with
  | '"' :: rest => (basic? (rest.length + 1) rest).map fun (s, rest) => (String.ofList s, rest)
  | '\'' :: rest => (literal? rest).map fun (s, rest) => (String.ofList s, rest)
  | _ =>
    let bare := cs.takeWhile isBare
    if bare.isEmpty then none else some (String.ofList bare, cs.dropWhile isBare)

/-- Keys have fewer parts than this, and values are nested less deeply. -/
def depthLimit : Nat := 80

def keyParts? : Nat → List Char → Option (List String × List Char)
  | 0, _ => none
  | fuel + 1, cs => do
    let (name, cs) ← simpleKey? (skipBlanks cs)
    match skipBlanks cs with
    | '.' :: cs =>
      let (names, cs) ← keyParts? fuel cs
      some (name :: names, cs)
    | cs => some ([name], cs)

def key? (cs : List Char) : Option (List String × List Char) := do
  let (names, rest) ← keyParts? (cs.length + 1) cs
  if names.length < depthLimit then some (names, rest) else none

/-- Digits with single underscores between them. -/
def grouped? (digit : Char → Bool) (cs : List Char) : Option (List Char) :=
  match cs with
  | [] => none
  | c :: rest => if digit c then go rest [c] else none
where
  go : List Char → List Char → Option (List Char)
    | [], done => some done.reverse
    | '_' :: c :: rest, done => if digit c then go rest (c :: done) else none
    | c :: rest, done => if digit c then go rest (c :: done) else none

def bounded? (n : Int) : Option Toml :=
  if Word.holdsSigned n then some (.integer n) else none

def sign : List Char → Bool × List Char
  | '-' :: cs => (true, cs)
  | '+' :: cs => (false, cs)
  | cs => (false, cs)

def whole? (cs : List Char) : Option (List Char) := do
  let digits ← grouped? isDigit cs
  if digits.length > 1 && digits.head? == some '0' then none else some digits

/-- A whole number in base sixteen, eight or two. -/
def based? (cs : List Char) : Option Toml := do
  let (base, digits) ← match cs with
    | '0' :: 'x' :: cs => some (16, cs)
    | '0' :: 'o' :: cs => some (8, cs)
    | '0' :: 'b' :: cs => some (2, cs)
    | _ => none
  let valid (c : Char) := match Json.hexValue? c with
    | some v => v < base
    | none => false
  let digits ← grouped? valid digits
  bounded? (digits.foldl (fun n c => n * base + (Json.hexValue? c).getD 0) 0 : Nat)

def float? (cs : List Char) : Option Toml := do
  let (negative, cs) := sign cs
  let isExponent (c : Char) := c == 'e' || c == 'E'
  let mantissa := cs.takeWhile (!isExponent ·)
  let exponent := cs.dropWhile (!isExponent ·)
  let places := mantissa.dropWhile (· != '.')
  let digits ← whole? (mantissa.takeWhile (· != '.'))
  let fraction ← match places with
    | [] => some []
    | _ :: fraction => grouped? isDigit fraction
  let power : Int ← match exponent with
    | [] => some 0
    | _ :: cs => do
      let (below, cs) := sign cs
      let digits ← grouped? isDigit cs
      let n : Int := valueOfDigits digits
      some (if below then -n else n)
  if places.isEmpty && exponent.isEmpty then none
  else
    let x := Binary64.ofDecimal negative (valueOfDigits (digits ++ fraction))
      (power - fraction.length)
    if x.isFinite || negative then some .float else none

def two? (low high : Nat) : List Char → Option (List Char)
  | a :: b :: cs =>
    if isDigit a && isDigit b && low ≤ valueOfDigits [a, b] && valueOfDigits [a, b] ≤ high then
      some cs
    else none
  | _ => none

def char? (p : Char → Bool) : List Char → Option (List Char)
  | c :: cs => if p c then some cs else none
  | [] => none

def day? (cs : List Char) : Option (List Char) := do
  let year := cs.take 4
  if year.length = 4 && year.all isDigit then
    let cs ← char? (· == '-') (cs.drop 4)
    let month := valueOfDigits (cs.take 2)
    let cs ← two? 1 12 cs
    let cs ← char? (· == '-') cs
    let y := valueOfDigits year
    let leap := y % 4 == 0 && (y % 100 != 0 || y % 400 == 0)
    let last :=
      if month = 2 then (if leap then 29 else 28)
      else if month ∈ [4, 6, 9, 11] then 30
      else 31
    two? 1 last cs
  else none

def time? (cs : List Char) : Option (List Char) := do
  let cs ← two? 0 23 cs
  let cs ← char? (· == ':') cs
  let cs ← two? 0 59 cs
  let cs ← char? (· == ':') cs
  let cs ← two? 0 60 cs
  match cs with
  | '.' :: rest =>
    if (rest.takeWhile isDigit).isEmpty then none else some (rest.dropWhile isDigit)
  | cs => some cs

def zone? : List Char → Option (List Char)
  | 'Z' :: cs => some cs
  | 'z' :: cs => some cs
  | '+' :: cs => hours cs
  | '-' :: cs => hours cs
  | cs => some cs
where
  hours (cs : List Char) : Option (List Char) := do
    let cs ← two? 0 23 cs
    let cs ← char? (· == ':') cs
    two? 0 59 cs

/-- A day, a time, or both with or without a zone, and nothing after it. -/
def moment? (cs : List Char) : Option Toml :=
  match day? cs with
  | some [] => some .date
  | some (c :: rest) =>
    if c = 'T' || c = 't' || c = ' ' then
      match (time? rest).bind zone? with
      | some [] => some .date
      | _ => none
    else none
  | none =>
    match time? cs with
    | some [] => some .date
    | _ => none

def isToken (c : Char) : Bool :=
  isLetter c || isDigit c || c == '_' || c == '+' || c == '-' || c == '.' || c == ':'

/-- The token in front. A blank between a day and a time belongs to it. -/
def token (cs : List Char) : List Char × List Char :=
  let word := cs.takeWhile isToken
  let rest := cs.dropWhile isToken
  match day? word, rest with
  | some [], ' ' :: c :: more =>
    if isDigit c then
      (word ++ ' ' :: (c :: more).takeWhile isToken, (c :: more).dropWhile isToken)
    else (word, rest)
  | _, _ => (word, rest)

def atom? (word : List Char) : Option Toml :=
  let (negative, digits) := sign word
  if word = "true".toList then some (.boolean true)
  else if word = "false".toList then some (.boolean false)
  else if digits = "inf".toList || digits = "nan".toList then some .float
  else
    match whole? digits with
    | some ds =>
      let n : Int := valueOfDigits ds
      bounded? (if negative then -n else n)
    | none => (based? word).or ((float? word).or (moment? word))

mutual

def value? (depth : Nat) : Nat → List Char → Option (Toml × List Char)
  | 0, _ => none
  | fuel + 1, cs =>
    match cs with
    | '[' :: rest =>
      if depth + 1 < depthLimit then
        (items? (depth + 1) fuel rest).map fun (xs, rest) => (.array xs, rest)
      else none
    | '{' :: rest =>
      if depth + 1 < depthLimit then
        match skipBlanks rest with
        | '}' :: rest => some (.table [], rest)
        | rest =>
          (pairs? (depth + 1) fuel (.empty .header) rest).map fun (t, rest) => (t.finish, rest)
      else none
    | '"' :: _ => (string? cs).map fun (s, rest) => (.string (String.ofList s), rest)
    | '\'' :: _ => (string? cs).map fun (s, rest) => (.string (String.ofList s), rest)
    | _ =>
      let (word, rest) := token cs
      (atom? word).map fun v => (v, rest)

def items? (depth : Nat) : Nat → List Char → Option (List Toml × List Char)
  | 0, _ => none
  | fuel + 1, cs =>
    match skipLines cs.length cs with
    | ']' :: rest => some ([], rest)
    | cs => do
      let (x, rest) ← value? depth fuel cs
      match skipLines rest.length rest with
      | ',' :: rest =>
        let (xs, rest) ← items? depth fuel rest
        some (x :: xs, rest)
      | ']' :: rest => some ([x], rest)
      | _ => none

def pairs? (depth : Nat) : Nat → Draft → List Char → Option (Draft × List Char)
  | 0, _, _ => none
  | fuel + 1, t, cs => do
    let (names, rest) ← key? cs
    let name ← names.getLast?
    let rest ← char? (· == '=') rest
    let (v, rest) ← value? depth fuel (skipBlanks rest)
    let t ← t.put? names.dropLast name v
    match skipBlanks rest with
    | ',' :: rest => pairs? depth fuel t rest
    | '}' :: rest => some (t, rest)
    | _ => none

end

/-- A document that is being read: what is finished, and the table of the last
header with the place it goes to. -/
structure Reading where
  root : Draft
  current : Draft
  header : Option (Bool × List String × String)

namespace Reading

def settle? (r : Reading) : Option Draft :=
  match r.header with
  | none => some r.current
  | some (true, path, name) => r.root.append? path name r.current
  | some (false, path, name) => r.root.close? path name r.current

def enter? (r : Reading) (list : Bool) (names : List String) : Option Reading := do
  let root ← r.settle?
  let name ← names.getLast?
  let path := names.dropLast
  if list then
    if root.mayAppend path name then some ⟨root, .empty .header, some (true, path, name)⟩
    else none
  else
    let current ← root.opened? path name
    some ⟨root, current, some (false, path, name)⟩

def line? (r : Reading) (cs : List Char) : Option (Reading × List Char) :=
  match cs with
  | '[' :: '[' :: rest => do
    let (names, rest) ← key? rest
    match rest with
    | ']' :: ']' :: rest => some (← r.enter? true names, rest)
    | _ => none
  | '[' :: rest => do
    let (names, rest) ← key? rest
    let rest ← char? (· == ']') rest
    some (← r.enter? false names, rest)
  | _ => do
    let (names, rest) ← key? cs
    let name ← names.getLast?
    let rest ← char? (· == '=') rest
    let (v, rest) ← value? 0 (rest.length + 1) (skipBlanks rest)
    let current ← r.current.put? names.dropLast name v
    some ({ r with current }, rest)

def lines? (r : Reading) : Nat → List Char → Option Draft
  | 0, _ => none
  | fuel + 1, cs =>
    match skipLines cs.length cs with
    | [] => r.settle?
    | cs => do
      let (r, rest) ← r.line? cs
      let rest ← finishLine? rest
      r.lines? fuel rest

end Reading

/-- The table of a document. A byte order mark in front does not count. -/
def read? (text : String) : Option (List (String × Toml)) :=
  let cs := match text.toList with
    | '\ufeff' :: cs => cs
    | cs => cs
  (Reading.lines? ⟨.empty .header, .empty .header, none⟩ (cs.length + 1) cs).map
    fun t => Draft.finishEntries t.entries

end Relata.Toml
