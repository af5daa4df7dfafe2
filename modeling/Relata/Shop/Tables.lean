import Relata.Schema.Declaration
import Relata.Script.Basic

/-! # The tables of a shop

A shop has categories of products, customers, and sales with their items. These are
the tables of the store, the columns that models may name, and the relations between
the tables.
-/

namespace Relata.Shop

def text (name : String) (required : Bool := false) (default : Default := .scalar .null) :
    Column :=
  { name, affinity := .text, required, default }

def whole (name : String) (default : Int64) : Column :=
  { name, affinity := .integer, required := true, default := .scalar (.integer default) }

def createdAt : Column :=
  text "created_at" true .now

def categories : Definition where
  name := "categories"
  columns := [text "id", text "name" true, text "parent_id"]
  indexes := [{ column := "id" }]
  spread := true
  references := [{ column := "parent_id", parent := "categories", parentColumn := "id" }]

def products : Definition where
  name := "products"
  columns := [text "id", text "sku" true, text "name" true, whole "price_cents" 0,
    whole "stock" 0, whole "is_active" 1, text "category_id", createdAt]
  indexes := [{ column := "sku" }, { column := "id" }]
  spread := true
  references := [{ column := "category_id", parent := "categories", parentColumn := "id" }]

def customers : Definition where
  name := "customers"
  columns := [text "id", text "name" true, text "phone", text "email", whole "is_member" 0,
    createdAt]
  indexes := [{ column := "id" }]
  spread := true

def sales : Definition where
  name := "sales"
  columns := [text "id", text "customer_id", whole "total" 0,
    text "status" true (.scalar (.text "OPEN")), createdAt]
  indexes := [{ column := "id" }]
  spread := true
  references := [{ column := "customer_id", parent := "customers", parentColumn := "id" }]

def saleItems : Definition where
  name := "sale_items"
  columns := [text "id", text "sale_id" true, text "product_id", whole "qty" 1,
    whole "price_cents" 0]
  indexes := [{ column := "id" }]
  spread := true
  references := [
    { column := "sale_id", parent := "sales", parentColumn := "id", cascade := true },
    { column := "product_id", parent := "products", parentColumn := "id" }]

/-- The tables in the order in which they can be added. -/
def tables : List Definition :=
  [categories, products, customers, sales, saleItems]

def jobs : List Job :=
  tables.map .define ++ [.index "idx_sale_items_sale" "sale_items" "sale_id",
    .index "idx_sales_customer" "sales" "customer_id"]

/-- What the models of the shop know of its tables. -/
def declaration : Declaration :=
  ({ tables := tables.map fun d => (d.name, d.columns.map Column.name) } : Declaration)
    |>.oneToMany "sales" "items" "sale_items" "sale_id"
    |>.manyToOne "sales" "customer" "customers" "customer_id"
    |>.oneToMany "customers" "sales" "sales" "customer_id"
    |>.manyToOne "sale_items" "sale" "sales" "sale_id"
    |>.manyToOne "sale_items" "product" "products" "product_id"
    |>.manyToOne "products" "category" "categories" "category_id"
    |>.manyToOne "categories" "parent" "categories" "parent_id"
    |>.oneToMany "categories" "children" "categories" "parent_id"

def schema : Except Fault Schema :=
  declaration.build

end Relata.Shop
