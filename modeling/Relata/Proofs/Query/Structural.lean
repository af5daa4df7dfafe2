import Relata.Query.Find
import Relata.Proofs.Result

/-! # Queries as structural data

Every query of representable values is written as structural data, and what is read from
that is the query again: the same nodes, fields and relations in the same order, at every
depth.
-/

namespace Relata

namespace Entries

variable {α : Type} {entries : Entries α} {name : String}

theorem set_of_not_mem (h : name ∉ entries.names) (a : α) :
    entries.set name a = entries ++ [(name, a)] := by
  induction entries with
  | nil => rfl
  | cons e rest ih =>
    obtain ⟨hne, hrest⟩ := not_or.mp (mt List.mem_cons.mpr h)
    rw [set, if_neg (Ne.symm hne), ih hrest, List.cons_append]

theorem set_of_append {more : List (String × α)} {a : α}
    (h : Distinct (entries ++ (name, a) :: more)) :
    entries.set name a = entries ++ [(name, a)] := by
  have hnames : (entries.names ++ name :: names more).Nodup := by
    simpa [Distinct, names] using h
  exact set_of_not_mem (fun hname =>
    (List.nodup_append.mp hnames).2.2 name hname name List.mem_cons_self rfl) a

theorem extend_of_distinct {more : List (String × α)} (h : Distinct (entries ++ more)) :
    entries.extend more = entries ++ more := by
  induction more generalizing entries with
  | nil => exact (List.append_nil entries).symm
  | cons e more ih =>
    have happend : entries ++ e :: more = (entries ++ [e]) ++ more := by simp
    have hset : entries.set e.1 e.2 = entries ++ [e] := set_of_append h
    rw [happend] at h ⊢
    rw [← ih h, ← hset]
    rfl

theorem ofList_of_distinct {list : List (String × α)} (h : Distinct list) :
    ofList list = list := by
  have hlist : extend [] list = [] ++ list := extend_of_distinct h
  rwa [List.nil_append] at hlist

end Entries

/-! ## Values -/

mutual

/-- Values that structural data has a form of its own for: no bytes, instants and dates,
and no doubles that are infinite or not a number. -/
def Value.Representable : Value → Prop
  | .null => True
  | .bool _ => True
  | .integer _ => True
  | .real x => x.isFinite = true
  | .text _ => True
  | .blob _ => False
  | .timestamp _ => False
  | .date _ => False
  | .array items => Value.AllRepresentable items
  | .object fields => Entries.Distinct fields ∧ Record.Representable fields

def Value.AllRepresentable : List Value → Prop
  | [] => True
  | v :: vs => v.Representable ∧ Value.AllRepresentable vs

def Record.Representable : List (String × Value) → Prop
  | [] => True
  | (_, v) :: fields => v.Representable ∧ Record.Representable fields

end

mutual

theorem Value.ofJson_toJson (field : String) (v : Value) (h : v.Representable) :
    Value.ofJson field v.toJson = .ok v := by
  cases v with
  | null | bool | integer | real | text => rfl
  | blob | timestamp | date => exact h.elim
  | array items =>
    rw [Value.toJson, Value.ofJson, Value.ofItems_toItems field items h]
    rfl
  | object fields =>
    rw [Value.toJson, Value.ofJson, Record.ofMembers_toMembers fields h.2]
    exact congrArg (fun fields => Except.ok (Value.object fields)) (Entries.ofList_of_distinct h.1)

theorem Value.ofItems_toItems (field : String) (vs : List Value) (h : Value.AllRepresentable vs) :
    Value.ofItems field (Value.toItems vs) = .ok vs := by
  cases vs with
  | nil => rfl
  | cons v vs =>
    rw [Value.toItems, Value.ofItems, Value.ofJson_toJson field v h.1,
      Value.ofItems_toItems field vs h.2]
    rfl

theorem Record.ofMembers_toMembers (fields : List (String × Value))
    (h : Record.Representable fields) :
    Record.ofMembers (Record.toMembers fields) = .ok fields := by
  cases fields with
  | nil => rfl
  | cons e fields =>
    obtain ⟨name, v⟩ := e
    rw [Record.toMembers, Record.ofMembers, Value.ofJson_toJson name v h.1,
      Record.ofMembers_toMembers fields h.2]
    rfl

end

/-! ## Filters -/

def Comparison.operator : Comparison → String
  | equal => "equals"
  | different => "not"
  | less => "lt"
  | atMost => "lte"
  | greater => "gt"
  | atLeast => "gte"

def Placement.operator : Placement → String
  | anywhere => "contains"
  | atStart => "startsWith"
  | atEnd => "endsWith"

def Connective.word : Connective → String
  | and => "AND"
  | or => "OR"

namespace Test

def toJson : Test → Json
  | compare how v => .object [(how.operator, v.toJson)]
  | among vs => .object [("in", .array (Value.toItems vs))]
  | outside vs => .object [("notIn", .array (Value.toItems vs))]
  | like place v => .object [(place.operator, v.toJson)]
  | isNull => .null

def Representable : Test → Prop
  | compare _ v => v.Representable
  | among vs => Value.AllRepresentable vs
  | outside vs => Value.AllRepresentable vs
  | like _ v => v.Representable
  | isNull => True

end Test

def Node.name : Node → String
  | .test field _ => field
  | .group c _ => c.word

namespace Filter

mutual

/-- A test is written under its field, a group under its connective as the list of its
children. -/
def nodeToJson : Node → Json
  | .test _ t => t.toJson
  | .group _ children => .array (toItems children)

def toMembers : List Node → List (String × Json)
  | [] => []
  | node :: nodes => (node.name, nodeToJson node) :: toMembers nodes

def toItems : List (List Node) → List Json
  | [] => []
  | child :: children => .object (Entries.ofList (toMembers child)) :: toItems children

end

/-- The object of a filter. Its members are set one after another, so that of two nodes
of one name only one would stay. -/
def toJson (filter : Filter) : Json :=
  .object (Entries.ofList (toMembers filter))

mutual

def NodeRepresentable : Node → Prop
  | .test field t => connective? field = none ∧ t.Representable
  | .group _ children => AllRepresentable children

/-- No test is of a field that is called like a connective, and no two nodes have one
name: a field is tested once, and there is at most one group of each connective. The same
is true of the children of groups. -/
def Representable : List Node → Prop
  | [] => True
  | node :: nodes =>
    NodeRepresentable node ∧ node.name ∉ nodes.map Node.name ∧ Representable nodes

def AllRepresentable : List (List Node) → Prop
  | [] => True
  | child :: children => Representable child ∧ AllRepresentable children

end

theorem names_toMembers (nodes : List Node) :
    Entries.names (toMembers nodes) = nodes.map Node.name := by
  induction nodes with
  | nil => rfl
  | cons node nodes ih => exact congrArg (node.name :: ·) ih

theorem Representable.distinct {nodes : List Node} (h : Representable nodes) :
    Entries.Distinct (toMembers nodes) := by
  rw [Entries.Distinct, names_toMembers]
  induction nodes with
  | nil => exact List.nodup_nil
  | cons node nodes ih => exact List.nodup_cons.mpr ⟨h.2.1, ih h.2.2⟩

theorem connective?_word (c : Connective) : connective? c.word = some c := by
  cases c <;> decide

theorem ofField_toJson (field : String) (t : Test) (h : t.Representable) :
    ofField field t.toJson = .ok [.test field t] := by
  cases t with
  | isNull => rfl
  | compare how v =>
    have hv := Value.ofJson_toJson field v h
    cases how <;>
      simp only [Test.toJson, Comparison.operator, ofField, testsOfJson, testOfJson?, hv] <;> rfl
  | like place v =>
    have hv := Value.ofJson_toJson field v h
    cases place <;>
      simp only [Test.toJson, Placement.operator, ofField, testsOfJson, testOfJson?, hv] <;> rfl
  | among vs | outside vs =>
    simp only [Test.toJson, ofField, testsOfJson, testOfJson?, operands,
      Value.ofItems_toItems field vs h]
    rfl

mutual

theorem ofMembers_toMembers (nodes : List Node) (h : Representable nodes) :
    ofMembers (toMembers nodes) = .ok nodes := by
  match nodes, h with
  | [], _ => rfl
  | .test field t :: nodes, ⟨⟨hplain, ht⟩, _, hnodes⟩ =>
    simp only [toMembers, Node.name, nodeToJson, ofMembers, hplain, ofField_toJson field t ht,
      ofMembers_toMembers nodes hnodes]
    rfl
  | .group c children :: nodes, ⟨hchildren, _, hnodes⟩ =>
    simp only [toMembers, Node.name, nodeToJson, ofMembers, connective?_word, childrenOfJson,
      ofItems_toItems children hchildren, ofMembers_toMembers nodes hnodes]
    rfl

theorem ofItems_toItems (children : List (List Node)) (h : AllRepresentable children) :
    ofItems (toItems children) = .ok children := by
  match children, h with
  | [], _ => rfl
  | child :: children, ⟨hchild, hchildren⟩ =>
    rw [toItems, ofItems, Entries.ofList_of_distinct hchild.distinct, ofJson,
      ofMembers_toMembers child hchild, ofItems_toItems children hchildren]
    rfl

end

theorem ofJson_toJson (filter : Filter) (h : Representable filter) :
    ofJson filter.toJson = .ok filter := by
  rw [toJson, ofJson, Entries.ofList_of_distinct h.distinct, ofMembers_toMembers filter h]

end Filter

/-! ## Orders and pages -/

def Direction.word : Direction → String
  | ascending => "asc"
  | descending => "desc"

def Order.toJson (order : Order) : Json :=
  .array (order.map fun (field, d) => .object [(field, .string d.word)])

theorem Direction.ofText_word (d : Direction) : Direction.ofText d.word = .ok d := by
  cases d <;> rfl

theorem Order.ofJson_toJson (order : Order) : Order.ofJson order.toJson = .ok order := by
  rw [Order.toJson, Order.ofJson]
  induction order with
  | nil => rfl
  | cons e order ih =>
    obtain ⟨field, d⟩ := e
    simp only [List.map_cons, Order.ofItems, Order.ofMembers, Direction.ofText_word, ih]
    rfl

def Page.countToJson : Option UInt64 → Json
  | none => .null
  | some n => .number (.whole (Int64.ofNat n.toNat))

/-- The counts are whole numbers of 64 bits with sign. -/
def Page.Representable (page : Page) : Prop :=
  (∀ n ∈ page.take, n.toNat ≤ Page.largest) ∧ ∀ n ∈ page.skip, n.toNat ≤ Page.largest

theorem Page.count_countToJson {members : List (String × Json)} {name : String}
    {c : Option UInt64} (hmember : members.lookup name = some (Page.countToJson c))
    (h : ∀ n ∈ c, n.toNat ≤ Page.largest) : Page.count members name = .ok c := by
  rw [Page.count, hmember]
  cases c with
  | none => rfl
  | some n =>
    have hn : n.toNat < 2 ^ 63 := Nat.lt_of_le_of_lt (h n rfl) (by decide)
    have hint : (Int64.ofNat n.toNat).toInt = n.toNat := Int64.toInt_ofNat_of_lt hn
    have hpos : (0 : Int64) ≤ Int64.ofNat n.toNat := by
      rw [Int64.le_iff_toInt_le, hint]
      exact Int.natCast_nonneg _
    have hword : (Int64.ofNat n.toNat).toUInt64 = n := UInt64.ofNat_toNat
    rw [Page.countToJson]
    simp only [if_pos hpos, hword]

/-! ## Selections -/

namespace Select

mutual

/-- True for a plain field, an object with the member `select` for one with a selection
of its own. -/
def fieldToJson : Option Select → Json
  | none => .bool true
  | some inner => .object [("select", toJson inner)]

def toMembers : List (String × Option Select) → List (String × Json)
  | [] => []
  | (name, inner) :: rest => (name, fieldToJson inner) :: toMembers rest

def toJson : Select → Json
  | ⟨fields⟩ => .object (toMembers fields)

end

mutual

def FieldRepresentable : Option Select → Prop
  | none => True
  | some inner => Representable inner

def AllRepresentable : List (String × Option Select) → Prop
  | [] => True
  | (_, inner) :: rest => FieldRepresentable inner ∧ AllRepresentable rest

def Representable : Select → Prop
  | ⟨fields⟩ => Entries.Distinct fields ∧ AllRepresentable fields

end

mutual

theorem ofMembers_toMembers (s : Select) (fields : List (String × Option Select))
    (hdistinct : Entries.Distinct (s.fields ++ fields)) (h : AllRepresentable fields) :
    ofMembers s (toMembers fields) = .ok ⟨s.fields ++ fields⟩ := by
  match fields, h with
  | [], _ =>
    rw [toMembers, ofMembers, List.append_nil]
    cases s
    rfl
  | (name, none) :: rest, ⟨_, hrest⟩ =>
    have hset : s.field name = ⟨s.fields ++ [(name, none)]⟩ :=
      congrArg Select.mk (Entries.set_of_append hdistinct)
    rw [toMembers, fieldToJson, ofMembers, if_pos rfl, hset,
      ofMembers_toMembers _ rest (by simpa using hdistinct) hrest]
    simp
  | (name, some inner) :: rest, ⟨hinner, hrest⟩ =>
    have hset : s.nested name inner = ⟨s.fields ++ [(name, some inner)]⟩ :=
      congrArg Select.mk (Entries.set_of_append hdistinct)
    rw [toMembers, fieldToJson, ofMembers, wrapped?_toJson inner hinner]
    show ofMembers (s.nested name inner) (toMembers rest) = _
    rw [hset, ofMembers_toMembers _ rest (by simpa using hdistinct) hrest]
    simp

theorem wrapped?_toJson (s : Select) (h : Representable s) :
    wrapped? [("select", toJson s)] = some (.ok s) := by
  match s, h with
  | ⟨fields⟩, ⟨hdistinct, hall⟩ =>
    rw [toJson, wrapped?, if_pos rfl, ofMembers_toMembers empty fields hdistinct hall]
    rfl

end

theorem ofJson_toJson (s : Select) (h : Representable s) : ofJson s.toJson = .ok s := by
  obtain ⟨fields⟩ := s
  obtain ⟨hdistinct, hall⟩ := h
  rw [toJson, ofJson, ofMembers_toMembers empty fields hdistinct hall]
  rfl

end Select

/-! ## Relations and whole queries -/

def queryMembers (filter : Filter) (order : Order) (page : Page) (select : Option Select)
    (tree : Json) : List (String × Json) :=
  [("where", filter.toJson), ("orderBy", order.toJson), ("take", Page.countToJson page.take),
    ("skip", Page.countToJson page.skip)] ++
  (select.map fun s => ("select", s.toJson)).toList ++ [("include", tree)]

section

variable (filter : Filter) (order : Order) (page : Page) (select : Option Select) (tree : Json)

theorem where_queryMembers :
    Json.member? "where" (queryMembers filter order page select tree) = some filter.toJson :=
  rfl

theorem orderBy_queryMembers :
    Json.member? "orderBy" (queryMembers filter order page select tree) = some order.toJson :=
  rfl

theorem select_queryMembers :
    Json.member? "select" (queryMembers filter order page select tree) =
      select.map Select.toJson := by
  cases select <;> rfl

theorem include_queryMembers :
    Json.member? "include" (queryMembers filter order page select tree) = some tree := by
  cases select <;> rfl

theorem Page.ofMembers_queryMembers {page : Page} (h : page.Representable) :
    Page.ofMembers (queryMembers filter order page select tree) = .ok page := by
  have htake : Page.count (queryMembers filter order page select tree) "take" = .ok page.take :=
    Page.count_countToJson rfl h.1
  have hskip : Page.count (queryMembers filter order page select tree) "skip" = .ok page.skip :=
    Page.count_countToJson rfl h.2
  rw [Page.ofMembers, htake, hskip]
  rfl

theorem Include.nestedOfMembers_queryMembers :
    Include.nestedOfMembers (queryMembers filter order page select tree) = Include.ofJson tree := by
  cases select <;> simp [queryMembers, Include.nestedOfMembers]

end

namespace Include

mutual

def scopeToJson : Scope → Json
  | ⟨filter, order, page, select, nested⟩ =>
    .object (queryMembers filter order page select (.object (toMembers nested)))

def toMembers : List (String × Scope) → List (String × Json)
  | [] => []
  | (name, scope) :: rest => (name, scopeToJson scope) :: toMembers rest

end

def toJson (tree : Include) : Json :=
  .object (toMembers tree)

mutual

def ScopeRepresentable : Scope → Prop
  | ⟨filter, _, page, select, nested⟩ => Filter.Representable filter ∧ page.Representable ∧
      (∀ s ∈ select, s.Representable) ∧ Entries.Distinct nested ∧ AllRepresentable nested

def AllRepresentable : List (String × Scope) → Prop
  | [] => True
  | (_, scope) :: rest => ScopeRepresentable scope ∧ AllRepresentable rest

end

mutual

theorem ofMembers_toMembers (tree nested : List (String × Scope))
    (hdistinct : Entries.Distinct (tree ++ nested)) (h : AllRepresentable nested) :
    ofMembers tree (toMembers nested) = .ok (tree ++ nested) := by
  match nested, h with
  | [], _ => rw [toMembers, ofMembers, List.append_nil]
  | (name, ⟨filter, order, page, select, inner⟩) :: rest, ⟨hscope, hrest⟩ =>
    rw [toMembers, scopeToJson, ofMembers,
      scopeOfMembers_queryMembers filter order page select inner hscope]
    show ofMembers (Entries.set tree name _) (toMembers rest) = _
    rw [Entries.set_of_append hdistinct,
      ofMembers_toMembers _ rest (by simpa using hdistinct) hrest]
    simp

theorem scopeOfMembers_queryMembers (filter : Filter) (order : Order) (page : Page)
    (select : Option Select) (nested : List (String × Scope))
    (h : ScopeRepresentable ⟨filter, order, page, select, nested⟩) :
    scopeOfMembers (queryMembers filter order page select (.object (toMembers nested))) =
      .ok ⟨filter, order, page, select, nested⟩ := by
  obtain ⟨hfilter, hpage, hselect, hdistinct, hnested⟩ := h
  have htree : ofJson (.object (toMembers nested)) = .ok nested := by
    rw [ofJson, ofMembers_toMembers [] nested hdistinct hnested, List.nil_append]
  rw [scopeOfMembers, where_queryMembers, orderBy_queryMembers, select_queryMembers,
    Page.ofMembers_queryMembers _ _ _ _ hpage, nestedOfMembers_queryMembers, htree]
  simp only [Filter.ofJson_toJson filter hfilter, Order.ofJson_toJson]
  cases select with
  | none => rfl
  | some s =>
    simp only [Option.map_some, Select.ofJson_toJson s (hselect s rfl)]
    rfl

end

theorem ofJson_toJson (tree : Include) (hdistinct : Entries.Distinct tree)
    (h : AllRepresentable tree) : ofJson tree.toJson = .ok tree := by
  rw [toJson, ofJson, ofMembers_toMembers [] tree hdistinct h, List.nil_append]

end Include

namespace Find

def toJson (find : Find) : Json :=
  .object (queryMembers find.filter find.order find.page find.select find.attach.toJson)

/-- All values, counts, selections and nodes of the query have a form as structural data. -/
structure Representable (find : Find) : Prop where
  filter : Filter.Representable find.filter
  select : ∀ s ∈ find.select, s.Representable
  page : find.page.Representable
  attach_distinct : Entries.Distinct find.attach
  attach : Include.AllRepresentable find.attach

/-- A query that is written as structural data is read as the same query. -/
theorem structural_roundTrip (find : Find) (h : find.Representable) :
    ofJson find.toJson = .ok find := by
  obtain ⟨filter, select, attach, order, page⟩ := find
  obtain ⟨hfilter, hselect, hpage, hdistinct, hattach⟩ := h
  rw [toJson, ofJson, where_queryMembers, orderBy_queryMembers, select_queryMembers,
    include_queryMembers, Page.ofMembers_queryMembers _ _ _ _ hpage]
  simp only [Filter.ofJson_toJson filter hfilter, Order.ofJson_toJson,
    Include.ofJson_toJson attach hdistinct hattach]
  cases select with
  | none => rfl
  | some s =>
    simp only [Option.map_some, Select.ofJson_toJson s (hselect s rfl)]
    rfl

def openOrders : Find where
  filter := [.test "status" (.among [.text "open", .text "held"]),
    .group .or [[.test "total" (.compare .atLeast (.integer 100))], [.test "note" .isNull]]]
  select := some ⟨[("id", none), ("select", some ⟨[("select", none)]⟩)]⟩
  attach := [("items", {
    filter := [.group .and [], .test "equals" (.like .atStart (.text "A"))]
    page := { skip := some 1 }
    select := some ⟨[("where", none)]⟩
    nested := [("product", {})] })]
  order := [("created", .descending), ("id", .ascending)]
  page := { take := some 10 }

theorem structural_roundTrip_openOrders :
    openOrders.Representable ∧ ofJson openOrders.toJson = .ok openOrders := by
  have h : openOrders.Representable := by
    refine ⟨?_, ?_, ?_, ?_, ?_⟩
    · simp [openOrders, Filter.Representable, Filter.NodeRepresentable,
        Filter.AllRepresentable, Filter.connective?, Test.Representable, Value.Representable,
        Value.AllRepresentable, Node.name, Connective.word]
    · simp [openOrders, Select.Representable, Select.AllRepresentable,
        Select.FieldRepresentable, Entries.Distinct, Entries.names]
    · simp [openOrders, Page.Representable, Page.largest]
    · simp [openOrders, Entries.Distinct, Entries.names]
    · simp [openOrders, Include.AllRepresentable, Include.ScopeRepresentable,
        Filter.Representable, Filter.NodeRepresentable, Filter.AllRepresentable,
        Filter.connective?, Test.Representable, Value.Representable, Node.name, Connective.word,
        Page.Representable, Page.largest, Select.Representable, Select.AllRepresentable,
        Select.FieldRepresentable, Entries.Distinct, Entries.names]
  exact ⟨h, structural_roundTrip openOrders h⟩

end Find

end Relata
