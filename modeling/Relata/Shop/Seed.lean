import Relata.Client
import Relata.Shop.Sample

/-! # Filling a shop

A program that adds the tables of a shop, fills them with sample rows, and shows the
latest sales and their totals. It says line by line what it has done.
-/

namespace Relata.Shop

structure Options where
  /-- How many sales are made. -/
  count : Nat := 200
  path : String := "./till_dev.db"
  help : Bool := false

namespace Options

/-- The options of arguments. An argument that asks for a value takes the next one, if
there is one; a request for help ends the reading; what is not known is passed over. -/
def read (o : Options) : List String → Options
  | [] => o
  | [arg] => if arg = "--help" ∨ arg = "-h" then { o with help := true } else o
  | arg :: value :: rest =>
    if arg = "--count" ∨ arg = "-c" then
      read { o with count := (Settings.count? value).getD 200 } rest
    else if arg = "--db" ∨ arg = "-d" then read { o with path := value } rest
    else if arg = "--help" ∨ arg = "-h" then { o with help := true }
    else read o (value :: rest)

end Options

def usage : List String :=
  ["Till Seed Data Generator", "", "Usage: seed [OPTIONS]", "", "Options:",
    "  -c, --count <N>    Number of sales to generate (default: 200)",
    "  -d, --db <PATH>    Database file path (default: ./till_dev.db)",
    "  -h, --help         Show this help message"]

def banner (o : Options) : List String :=
  ["🌱 Till Seed Data Generator", "===========================", "Database: " ++ o.path,
    "Sales:    " ++ o.count.repr, ""]

/-- A script that says lines, which stay said if it fails. -/
abbrev Saying (α : Type) := ExceptT Failure (StateT (List String) Script) α

namespace Saying

instance : MonadLift (ExceptT Failure Script) (ExceptT Failure (StateT (List String) Script)) where
  monadLift op := .mk fun said => do
    let result ← op.run
    return (result, said)

def say (lines : List String) : Saying Unit :=
  .mk fun said => return (.ok (), said ++ lines)

def heard {α : Type} (s : Saying α) : Script (List String × Except Failure α) := do
  let (result, said) ← s.run []
  return (said, result)

end Saying

open Saying (say)

def complete (rows : List Record) : List (String × Record) :=
  rows.map (("", ·))

def addTables (c : Client) : List Job → Op Unit
  | [] => return ()
  | job :: jobs => do
    let _ ← c.handle.perform job
    addTables c jobs

def addCatalogue (c : Client) : Op Unit := do
  let m ← c.model "categories"
  let _ ← m.create "" topCategoryRow
  let _ ← m.createMany (complete (groups.map categoryRow))
  let m ← c.model "products"
  let _ ← m.createMany (complete (catalogue.mapIdx fun n p => productRow p n))
  let m ← c.model "customers"
  let _ ← m.createMany (complete (customerNames.mapIdx fun n name => customerRow name n))

def addSaleRows (c : Client) (now : Instant) (fresh : Nat → String) (sale : Nat) : Op Unit := do
  let m ← c.model "sales"
  let _ ← m.create "" (saleRow now sale)
  let m ← c.model "sale_items"
  let _ ← m.createMany ((lines sale).mapIdx fun n l => (fresh (sale * 4 + n), itemRow sale l))

/-- Adds a sale and its items in one transaction. -/
def addSale (c : Client) (now : Instant) (fresh : Nat → String) (sale : Nat) : Op Unit :=
  .mk do
    let ending ← c.transaction fun inner => (addSaleRows inner now fresh sale).run
    return ending.result id

def addSales (c : Client) (now : Instant) (fresh : Nat → String) : List Nat → Saying Unit
  | [] => return ()
  | sale :: rest => do
    addSale c now fresh sale
    if (sale + 1) % 50 = 0 then say ["  Generated " ++ (sale + 1).repr ++ " sales..."]
    addSales c now fresh rest

/-- Fills the shop, unless it has sales already. Says whether it did. -/
def fill (c : Client) (now : Instant) (fresh : Nat → String) (count : Nat) : Saying Bool := do
  addTables c jobs
  say ["✓ Connected to database", "✓ Tables ready"]
  let existing ← (← c.model "sales").count []
  if 0 < existing then
    say ["⚠ Database already has " ++ existing.repr ++ " sales",
      "  Skipping seed to avoid duplicates.", "  Delete the database file to regenerate."]
    return false
  else
    addCatalogue c
    say ["✓ Catalogue: " ++ catalogue.length.repr ++ " products, " ++
      customerNames.length.repr ++ " customers"]
    addSales c now fresh (List.range count)
    return true

def settled : Filter :=
  Filter.eq [] "status" (.text "DONE")

def latest : Find where
  filter := settled
  order := [("id", .descending)]
  page := { take := some 3 }
  attach := [
    ("customer", { select := some (Select.empty.field "name") }),
    ("items", { nested := [
      ("product", { select := some ((Select.empty.field "sku").field "name") })] })]

def totals : Aggregate where
  filter := settled
  count := some .rows
  sum := ["total"]
  avg := ["total"]
  max := ["total"]

def display (c : Client) (count : Nat) (elapsed : String) : Saying Unit := do
  let executed ← (ExceptT.lift c.handle.tally : Op Nat)
  say ["", "✓ Generated " ++ count.repr ++ " sales in " ++ elapsed,
    "  Statements executed: " ++ executed.repr, "", "Latest sales:"]
  let sales ← c.model "sales"
  let rows ← sales.findMany latest
  say [(Json.array (rows.map Record.toJson)).pretty]
  say ["", "Totals:"]
  let row ← sales.aggregate totals
  say [(Record.toJson row).pretty]
  say ["", "✓ Seed complete!"]
  c.close

end Relata.Shop
