import Relata.Shop.Tables
import Relata.Text.Ascii
import Relata.Value.Basic

/-! # Sample rows of a shop

A catalogue, some customers, and sales that are computed from their numbers, so that
the same number always gives the same sale.
-/

namespace Relata.Shop

open Text

def numeral (width n : Nat) : String :=
  String.ofList (padded width n)

structure Product where
  /-- The group of products that it belongs to, in capitals. -/
  group : String
  name : String
  price : Nat

def catalogue : List Product :=
  [⟨"TEA", "Green Tea", 450⟩, ⟨"TEA", "Black Tea", 400⟩, ⟨"BIS", "Digestive Biscuits", 120⟩,
    ⟨"BIS", "Chocolate Biscuits", 180⟩, ⟨"MLK", "Whole Milk 1L", 260⟩, ⟨"MLK", "Yogurt Cup", 90⟩,
    ⟨"BRD", "Wheat Bread", 210⟩, ⟨"BRD", "Bun Pack", 150⟩]

def groups : List String := ["TEA", "BIS", "MLK", "BRD"]

def customerNames : List String :=
  ["Ayesha Khan", "Bilal Ahmed", "Sara Malik", "Usman Tariq", "Hina Raza"]

def categoryId (group : String) : String :=
  "cat-" ++ String.ofList (group.toList.map foldCase)

def productId (n : Nat) : String := "prod-" ++ numeral 1 n

def customerId (n : Nat) : String := "cust-" ++ numeral 1 n

def saleId (n : Nat) : String := "sale-" ++ numeral 6 n

def topCategory : String := "cat-grocery"

def topCategoryRow : Record :=
  [("id", .text topCategory), ("name", .text "Grocery")]

def categoryRow (group : String) : Record :=
  [("id", .text (categoryId group)), ("name", .text group), ("parent_id", .text topCategory)]

def productRow (p : Product) (n : Nat) : Record :=
  [("id", .text (productId n)), ("sku", .text (p.group ++ "-" ++ numeral 3 n)),
    ("name", .text p.name), ("price_cents", .integer (Int64.ofNat p.price)),
    ("stock", .integer 100), ("is_active", .bool true),
    ("category_id", .text (categoryId p.group))]

def customerRow (name : String) (n : Nat) : Record :=
  [("id", .text (customerId n)), ("name", .text name),
    ("phone", .text ("0300-555" ++ numeral 4 n)), ("is_member", .bool (n % 2 = 0))]

/-- One line of a sale: which product, how many, and at what price. -/
structure Line where
  product : Nat
  quantity : Nat
  price : Nat

def line (sale n : Nat) : Line :=
  let product := (sale * 7 + n * 3) % catalogue.length
  { product, quantity := 1 + (sale + n) % 3,
    price := ((catalogue[product]?).map Product.price).getD 0 }

def lines (sale : Nat) : List Line :=
  (List.range (1 + sale % 4)).map (line sale)

def itemRow (sale : Nat) (l : Line) : Record :=
  [("sale_id", .text (saleId sale)), ("product_id", .text (productId l.product)),
    ("qty", .integer (Int64.ofNat l.quantity)), ("price_cents", .integer (Int64.ofNat l.price))]

def total (sale : Nat) : Nat :=
  (lines sale).foldl (fun sum l => sum + l.price * l.quantity) 0

/-- Every third sale is to nobody in particular, and every tenth is void. -/
def saleRow (now : Instant) (sale : Nat) : Record :=
  [("id", .text (saleId sale)),
    ("customer_id",
      if sale % 3 = 0 then .null else .text (customerId (sale % customerNames.length))),
    ("total", .integer (Int64.ofNat (total sale))),
    ("status", .text (if sale % 10 = 9 then "VOID" else "DONE")),
    ("created_at", .timestamp now)]

end Relata.Shop
