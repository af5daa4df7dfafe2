import Relata.Proofs.Model.Attach

/-! # Siblings

What a parent gets among others, told from the parent and the tables alone: the rows of each
relation that have its key, whatever other keys were asked for with it. Two batches give a
parent the same if the store takes rows of one key for equal to every value of that key, and
answers them in one order. Where it does not, a sibling may cost a parent its rows.
-/

namespace Relata

/-- What is attached to a record gives it no other keys. -/
def Record.KeyedBy (p q : Record) : Prop :=
  ∀ field k, q.keyOf? field = some k → Entries.get? q field = Entries.get? p field

namespace Record.KeyedBy

variable {p q : Record}

theorem refl (p : Record) : KeyedBy p p := by
  intro field k _
  rfl

theorem keyOf? (h : KeyedBy p q) {field : String} {k : Key} (hk : q.keyOf? field = some k) :
    p.keyOf? field = some k := by
  rw [Record.keyOf?, ← h field k hk]
  exact hk

theorem set (h : KeyedBy p q) (field : String) {v : Value} (keyless : v.key? = none) :
    KeyedBy p (Entries.set q field v) := by
  intro name k hk
  by_cases hn : name = field
  · rw [hn, Record.keyOf?, Entries.get?_set_self, Option.bind_some, keyless] at hk
    cases hk
  · rw [Record.keyOf?, Entries.get?_set_of_ne _ _ hn] at hk
    rw [Entries.get?_set_of_ne _ _ hn]
    exact h name k hk

end Record.KeyedBy

theorem Relation.key?_attached (r : Relation) (page : Page) (select : Option Select)
    (rows : List Record) : (r.attached page select rows).key? = none := by
  rw [attached]
  cases r.cardinality with
  | oneToMany => rfl
  | manyToOne =>
    simp only
    split <;> rfl

theorem Record.key?_of_mem_distinctValues {field : String} {v : Value} {seen : List Key}
    {rs : List Record} (h : v ∈ distinctValues field seen rs) : ∃ k, v.key? = some k := by
  induction rs generalizing seen with
  | nil => cases h
  | cons r rs ih =>
    rw [distinctValues] at h
    split at h
    · next u k hu hk =>
      rw [keyOf?, hu] at hk
      split at h
      · exact ih h
      · rcases List.mem_cons.mp h with rfl | h
        · exact ⟨k, hk⟩
        · exact ih h
    · exact ih h

theorem Record.keyOf?_of_distinctValues_eq_nil {field : String} {rs : List Record}
    (h : distinctValues field [] rs = []) {r : Record} (hr : r ∈ rs) : r.keyOf? field = none := by
  rw [Option.eq_none_iff_forall_ne_some]
  intro k hk
  obtain hseen | ⟨v, hv, -⟩ := @exists_mem_distinctValues field k [] rs r hr hk
  · cases hseen
  · rw [h] at hv
    cases hv

namespace Scans

variable {db : Database} (w : Scans db) (schema : Schema)

mutual

/-- A record with its relations: one after another, each for the record as it is by then. -/
def deal (table : String) : List (String × Scope) → Record → Record
  | [], p => p
  | (field, scope) :: rest, p =>
    match schema.relation? table field with
    | none => deal table rest p
    | some r => deal table rest (Entries.set p field (dealt r scope p))

def dealt (r : Relation) : Scope → Record → Value
  | ⟨filter, order, page, select, nested⟩, p =>
    let f := db.frameOf r.target
    let rows := order.sort f ((w.rows r.target).filter fun row => (Filter.truth f row filter).holds)
    r.attached page select (r.group ((rows.map f.definition.record).map (deal r.target nested)) p)

end

/-- What is taken for granted of keys and of the store, where a tree is attached to a batch. -/
structure Steady (c : Connection) (w : Scans c.database) (schema : Schema) (table : String)
    (tree : Include) (batch : List Record) : Prop where
  /-- A row with the key of a parent is equal to the parent's value for the store. -/
  keys {table' : String} {tree' : Include} {p : Record} {field : String} {scope : Scope}
    {r : Relation} {v : Value} {k : Key} {row : Row} :
    w.Attached schema table tree batch table' tree' p field scope r →
    Entries.get? p r.parentKey = some v → v.key? = some k → row ∈ w.rows r.target →
    ((c.database.definitionOf r.target).record row).keyOf? r.targetKey = some k →
    (Test.compareTruth (c.database.frameOf r.target) row r.targetKey .equal v).holds = true
  /-- The store selects the rows of its scan. Those of one key come in the order of the scope,
  whatever other keys are asked for. -/
  scans {table' : String} {tree' : Include} {p : Record} {field : String} {scope : Scope}
    {r : Relation} {vs : List Value} {cs : List Condition} {a : Answer} :
    w.Attached schema table tree batch table' tree' p field scope r → vs ≠ [] →
    Filter.conditions (Filter.merge [.test r.targetKey (.among vs)] scope.filter) = .ok cs →
    (c.execute (.query .everything r.target cs scope.order {})).1 = .ok a →
    a.rows.Perm (w.select r.target cs scope.order) ∧
      ∀ k, a.rows.filter (fun row => row.keyOf? r.targetKey = some k) =
        (w.select r.target cs scope.order).filter fun row => row.keyOf? r.targetKey = some k

variable {w schema}

theorem dealt_eq (r : Relation) (scope : Scope) (p : Record) :
    w.dealt schema r scope p = r.attached scope.page scope.select
      (r.group (((scope.order.sort (db.frameOf r.target) ((w.rows r.target).filter fun row =>
        (Filter.truth (db.frameOf r.target) row scope.filter).holds)).map
          (db.definitionOf r.target).record).map (w.deal schema r.target scope.nested)) p) := by
  obtain ⟨filter, order, page, select, nested⟩ := scope
  rw [dealt]
  rfl

theorem key?_dealt (r : Relation) (scope : Scope) (p : Record) :
    (w.dealt schema r scope p).key? = none := by
  rw [dealt_eq]
  exact r.key?_attached _ _ _

theorem keyedBy_deal {table : String} (tree : Include) {p q : Record} (h : Record.KeyedBy p q) :
    Record.KeyedBy p (w.deal schema table tree q) := by
  induction tree generalizing q with
  | nil =>
    rw [deal]
    exact h
  | cons entry rest ih =>
    obtain ⟨field, scope⟩ := entry
    rw [deal]
    split
    · exact ih h
    · exact ih (h.set field (key?_dealt ..))

theorem group_map_deal (w : Scans db) (schema : Schema) (nested : Include) {r : Relation}
    {rows others : List Record} {p : Record} (same : ∀ k, p.keyOf? r.parentKey = some k →
      rows.filter (fun row => row.keyOf? r.targetKey = some k) =
        others.filter fun row => row.keyOf? r.targetKey = some k) :
    r.group (rows.map (w.deal schema r.target nested)) p =
      r.group (others.map (w.deal schema r.target nested)) p := by
  rw [Relation.group, Relation.group]
  cases hk : p.keyOf? r.parentKey with
  | none => rfl
  | some k =>
    -- A row that has the key with its relations had it before.
    have hfilter (rows : List Record) :
        (rows.map (w.deal schema r.target nested)).filter
            (fun row => row.keyOf? r.targetKey = some k) =
          ((rows.filter fun row => row.keyOf? r.targetKey = some k).filter fun row =>
            (w.deal schema r.target nested row).keyOf? r.targetKey = some k).map
              (w.deal schema r.target nested) := by
      rw [List.filter_map, List.filter_filter]
      refine congrArg _ (List.filter_congr fun row _ => ?_)
      have hbefore : (w.deal schema r.target nested row).keyOf? r.targetKey = some k →
          row.keyOf? r.targetKey = some k := (keyedBy_deal nested (.refl row)).keyOf?
      rw [Function.comp_apply, Bool.eq_iff_iff, Bool.and_eq_true, decide_eq_true_iff,
        decide_eq_true_iff]
      exact ⟨fun h => ⟨h, hbefore h⟩, And.left⟩
    simp only [hfilter, same k hk]

end Scans

namespace Scans.Steady

variable {c : Connection} {w : Scans c.database} {schema : Schema} {table table' : String}
  {tree tree' : Include} {batch parents : List Record} {field : String} {scope : Scope}
  {r : Relation} {g : Record → Record}

theorem exists_of_mem_keys (keyed : ∀ p ∈ parents, Record.KeyedBy p (g p)) {v : Value}
    (hv : v ∈ Record.distinctValues r.parentKey [] (parents.map g)) :
    ∃ p ∈ parents, Entries.get? p r.parentKey = some v ∧ ∃ k, v.key? = some k := by
  obtain ⟨q, hq, hqv⟩ := Record.mem_of_mem_distinctValues hv
  obtain ⟨p, hp, rfl⟩ := List.mem_map.mp hq
  obtain ⟨k, hk⟩ := Record.key?_of_mem_distinctValues hv
  have hgk : (g p).keyOf? r.parentKey = some k := by
    rw [Record.keyOf?, hqv]
    exact hk
  exact ⟨p, hp, (keyed p hp r.parentKey k hgk) ▸ hqv, k, hk⟩

theorem resolved_of_mem_select
    (attached : ∀ p ∈ parents, w.Attached schema table tree batch table' tree' p field scope r)
    (keyed : ∀ p ∈ parents, Record.KeyedBy p (g p)) {cs : List Condition}
    (hcs : Filter.conditions (Filter.merge [.test r.targetKey
      (.among (Record.distinctValues r.parentKey [] (parents.map g)))] scope.filter) = .ok cs)
    {q : Record} (hq : q ∈ w.select r.target cs scope.order) :
    w.Resolved schema table tree batch r.target scope.nested q := by
  obtain ⟨row, hrow, rfl⟩ := List.mem_map.mp hq
  obtain ⟨hrow, hselects⟩ := List.mem_filter.mp (List.mem_mergeSort.mp hrow)
  rw [Filter.selects_merge hcs, Bool.and_eq_true] at hselects
  obtain ⟨v, hv, hequal⟩ := List.any_eq_true.mp hselects.1
  obtain ⟨p, hp, hpv, -⟩ := exists_of_mem_keys keyed hv
  obtain ⟨resolved, hmem, known⟩ := attached p hp
  refine .related resolved hmem known hrow ?_
  rw [Relation.isRelated, Relation.belongs, hpv, Bool.and_eq_true]
  exact ⟨hequal, hselects.2⟩

/-- Among the rows that meet the scope, those with the key of a parent are all selected. -/
theorem filter_select (steady : w.Steady c schema table tree batch)
    (attached : ∀ p ∈ parents, w.Attached schema table tree batch table' tree' p field scope r)
    (keyed : ∀ p ∈ parents, Record.KeyedBy p (g p)) {cs : List Condition}
    (hcs : Filter.conditions (Filter.merge [.test r.targetKey
      (.among (Record.distinctValues r.parentKey [] (parents.map g)))] scope.filter) = .ok cs)
    {p : Record} (hp : p ∈ parents) {k : Key} (hk : (g p).keyOf? r.parentKey = some k) :
    (w.select r.target cs scope.order).filter (fun row => row.keyOf? r.targetKey = some k) =
      ((scope.order.sort (c.database.frameOf r.target) ((w.rows r.target).filter fun row =>
        (Filter.truth (c.database.frameOf r.target) row scope.filter).holds)).map
          (c.database.definitionOf r.target).record).filter
            fun row => row.keyOf? r.targetKey = some k := by
  obtain hnil | ⟨v, hv, hvk⟩ :=
    @Record.exists_mem_distinctValues r.parentKey k [] _ _ (List.mem_map_of_mem hp) hk
  · cases hnil
  obtain ⟨p', hp', hpv, -⟩ := exists_of_mem_keys keyed hv
  rw [select, List.filter_map, List.filter_map, Order.filter_sort, Order.filter_sort,
    List.filter_filter, List.filter_filter]
  refine congrArg _ (congrArg _ (List.filter_congr fun row hrow => ?_))
  rw [Filter.selects_merge hcs, Function.comp_apply, Function.comp_apply]
  by_cases hrowk : ((c.database.definitionOf r.target).record row).keyOf? r.targetKey = some k
  · have hany : ((Record.distinctValues r.parentKey [] (parents.map g)).any fun v =>
        (Test.compareTruth (c.database.frameOf r.target) row r.targetKey .equal v).holds) = true :=
      List.any_eq_true.mpr ⟨v, hv, steady.keys (attached p' hp') hpv hvk hrow hrowk⟩
    rw [hany, Bool.true_and]
    rfl
  · have hother : decide (((c.database.frameOf r.target).definition.record row).keyOf?
        r.targetKey = some k) = false := decide_eq_false hrowk
    rw [hother, Bool.false_and]
    exact (Bool.and_eq_false_imp.mpr fun h => absurd (of_decide_eq_true h) hrowk).symm

end Scans.Steady

/-- However the store comes by the rows of a selection, they are those of the scan, and those
that the order tells apart come in this order. -/
theorem Scans.answer {c : Connection} (w : Scans c.database) {table : String}
    {cs : List Condition} {order : Order} {a : Answer}
    (names : ((Command.query .everything table cs order {}).names.any fun name =>
      Sql.isKeyword name.toList) = false)
    (h : (c.execute (.query .everything table cs order {})).1 = .ok a) :
    a.rows.Perm (w.select table cs order) ∧
      ∀ kind : Record → Bool,
        (∀ x ∈ w.rows table, ∀ y ∈ w.rows table,
          kind ((c.database.definitionOf table).record x) →
          kind ((c.database.definitionOf table).record y) →
          order.compareRows (c.database.frameOf table) x y = .eq → x = y) →
        a.rows.filter kind = (w.select table cs order).filter kind := by
  obtain ⟨t, access, ht, hrows⟩ :=
    Database.query_everything_ok (Connection.execute_query_ok names h)
  have hdefinition : c.database.definitionOf table = t.definition := by
    rw [Database.definitionOf, ht]
  have hframe : c.database.frameOf table = c.database.frame t := by
    rw [Database.frameOf, hdefinition]
    rfl
  have hscan : (w.rows table).Perm t.rows := by
    have := w.perm table
    rwa [Database.rowsOf, ht] at this
  have hperm := (access.perm_arrange (c.database.frame t)
    (t.rows.filter (Condition.selects (c.database.frame t) cs))).trans (hscan.symm.filter _)
  rw [hdefinition, hframe, hrows, select, hframe]
  refine ⟨((List.mergeSort_perm ..).trans (hperm.trans (List.mergeSort_perm ..).symm)).map _, ?_⟩
  intro kind untied
  rw [List.filter_map, List.filter_map, Order.filter_sort, Order.filter_sort]
  refine congrArg _ (Order.sort_eq_of_perm _ (hperm.filter _) fun x hx y hy hxy => ?_)
  have mem {x : Row} (hx : x ∈ (access.arrange (c.database.frame t)
      (t.rows.filter (Condition.selects (c.database.frame t) cs))).filter
        (kind ∘ t.definition.record)) :
      x ∈ w.rows table ∧ kind (t.definition.record x) = true := by
    obtain ⟨hx, hkind⟩ := List.mem_filter.mp hx
    exact ⟨(List.mem_filter.mp (hperm.mem_iff.mp hx)).1, hkind⟩
  exact untied x (mem hx).1 y (mem hy).1 (mem hx).2 (mem hy).2 hxy

theorem Scans.Steady.of_untied {c : Connection} {w : Scans c.database} {schema : Schema}
    {table : String} {tree : Include} {batch : List Record}
    (keys : ∀ {table' tree' p field scope r v k row},
      w.Attached schema table tree batch table' tree' p field scope r →
      Entries.get? p r.parentKey = some v → v.key? = some k → row ∈ w.rows r.target →
      ((c.database.definitionOf r.target).record row).keyOf? r.targetKey = some k →
      (Test.compareTruth (c.database.frameOf r.target) row r.targetKey .equal v).holds = true)
    (names : ∀ {table' tree' p field scope r},
      w.Attached schema table tree batch table' tree' p field scope r →
      ∀ name ∈ r.target :: r.targetKey :: (Filter.fields scope.filter ++ scope.order.fields),
        Sql.isKeyword name.toList = false)
    (untied : ∀ {table' tree' p field scope r k},
      w.Attached schema table tree batch table' tree' p field scope r →
      ∀ x ∈ w.rows r.target, ∀ y ∈ w.rows r.target,
        ((c.database.definitionOf r.target).record x).keyOf? r.targetKey = some k →
        ((c.database.definitionOf r.target).record y).keyOf? r.targetKey = some k →
        scope.order.compareRows (c.database.frameOf r.target) x y = .eq → x = y) :
    w.Steady c schema table tree batch where
  keys := keys
  scans {_ _ _ _ scope r _ cs _} attached _ hcs ha := by
    have hnames : ((Command.query .everything r.target cs scope.order {}).names.any fun name =>
        Sql.isKeyword name.toList) = false := by
      rw [List.any_eq_false]
      intro name hname
      rw [Bool.not_eq_true]
      refine names attached name ?_
      have hcolumns := Filter.columns_conditions hcs name
      rw [Filter.merge, List.singleton_append, Filter.fields] at hcolumns
      simp only [Command.names, List.nil_append, List.mem_cons, List.mem_append] at hname hcolumns ⊢
      rcases hname with rfl | hname | hname
      · exact .inl rfl
      · exact .inr ((hcolumns hname).imp_right .inl)
      · exact .inr (.inr (.inr hname))
    obtain ⟨perm, filters⟩ := w.answer hnames ha
    refine ⟨perm, fun k => filters _ fun x hx y hy hxk hyk heq => ?_⟩
    exact untied attached x hx y hy (of_decide_eq_true hxk) (of_decide_eq_true hyk) heq

theorem Scans.Granted.steady {c : Connection} {w : Scans c.database} {schema : Schema}
    {table : String} {tree : Include} {batch : List Record}
    (granted : w.Granted c schema table tree batch) : w.Steady c schema table tree batch where
  keys attached hv hk hrow hrowk := by
    rw [Definition.keyOf?_record (granted.spelled attached)] at hrowk
    exact (granted.keys attached hv hk hrow).mp hrowk
  scans attached some hcs ha := by
    rw [granted.scans attached some hcs ha]
    exact ⟨.refl _, fun k => rfl⟩

namespace Model

open Session

variable {c : Connection} {s t : Session} {m : Model} {rows : List Record}
  {w : Scans c.database} {schema : Schema} {table : String} {tree : Include}
  {batch : List Record}

/-- A tree is dealt to all parents on the way, each of which may have other relations already. -/
def Deals (w : Scans c.database) (schema : Schema) (table : String) (tree : Include)
    (batch : List Record) (rest : Include) : Prop :=
  ∀ {m : Model} {s t : Session} {tree' : Include} {parents rows : List Record}
    {g : Record → Record}, m.schema = schema → s.site.connection = c → s.behind = [] →
    (∀ e ∈ rest, e ∈ tree') →
    (∀ p ∈ parents, w.Resolved schema table tree batch m.table tree' p) →
    (∀ p ∈ parents, Record.KeyedBy p (g p)) →
    s.run (m.attach rest (parents.map g)).run = (.ok rows, t) →
    rows = parents.map (fun p => w.deal schema m.table rest (g p)) ∧
      t.site.connection = c ∧ t.behind = []

/-- One relation is dealt to all parents, if those below it are. -/
theorem deals_attachScope (steady : w.Steady c schema table tree batch)
    {tree' : Include} {parents : List Record} {g : Record → Record} {field : String}
    {scope : Scope} {r : Relation} (hschema : m.schema = schema) (hconn : s.site.connection = c)
    (hb : s.behind = [])
    (attached : ∀ p ∈ parents, w.Attached schema table tree batch m.table tree' p field scope r)
    (keyed : ∀ p ∈ parents, Record.KeyedBy p (g p))
    (below : Deals w schema table tree batch scope.nested)
    (h : s.run (m.attachScope field r scope (parents.map g)).run = (.ok rows, t)) :
    rows = parents.map (fun p => Entries.set (g p) field (w.dealt schema r scope (g p))) ∧
      t.site.connection = c ∧ t.behind = [] := by
  obtain ⟨hnil, rfl, rfl⟩ | ⟨hne, cs, a, u, fetched, hcs, ha, hu, hbu, hnested, rfl⟩ :=
    run_attachScope hb h
  · refine ⟨?_, hconn, hb⟩
    rw [List.map_map]
    refine List.map_congr_left fun p hp => ?_
    have hgk : (g p).keyOf? r.parentKey = none :=
      Record.keyOf?_of_distinctValues_eq_nil hnil (List.mem_map_of_mem hp)
    rw [Function.comp_apply, Scans.dealt_eq, Relation.group, Relation.group, hgk]
  · obtain ⟨p₀, hp₀⟩ := List.exists_mem_of_ne_nil parents fun hnil => hne (by rw [hnil]; rfl)
    rw [hconn] at ha
    obtain ⟨hperm, hkeys⟩ := steady.scans (attached p₀ hp₀) hne hcs ha
    rw [← List.map_id a.rows] at hnested
    obtain ⟨rfl, hconn', hb'⟩ := below (m := m.related r.target) hschema (hu.trans hconn) hbu
      (fun _ he => he)
      (fun q hq => Scans.Steady.resolved_of_mem_select attached keyed hcs (hperm.mem_iff.mp hq))
      (fun q _ => .refl q) hnested
    refine ⟨?_, hconn', hb'⟩
    rw [List.map_map]
    refine List.map_congr_left fun p hp => ?_
    have hgroup := w.group_map_deal schema scope.nested fun k hk =>
      (hkeys k).trans (steady.filter_select attached keyed hcs hp hk)
    rw [Function.comp_apply, Scans.dealt_eq, ← hgroup]
    rfl

theorem deals (steady : w.Steady c schema table tree batch) (rest : Include) :
    Deals w schema table tree batch rest := by
  induction rest using Include.induction with
  | nil =>
    intro m s t tree' parents rows g _ hconn hb _ _ _ h
    rw [attach] at h
    obtain ⟨rfl, rfl⟩ := run_pure_ok h
    exact ⟨by simp [Scans.deal], hconn, hb⟩
  | cons field scope rest ihnested ihrest =>
    intro m s t tree' parents rows g hschema hconn hb hrest resolved keyed h
    obtain ⟨hmem, hlater⟩ := List.forall_mem_cons.mp hrest
    rw [attach, hschema] at h
    cases hr : schema.relation? m.table field with
    | none =>
      rw [hr] at h
      simp only [Scans.deal, hr]
      exact ihrest hschema hconn hb hlater resolved keyed h
    | some r =>
      rw [hr] at h
      obtain ⟨_, u, hscope, hothers⟩ := run_op_bind_ok h
      obtain ⟨rfl, hconn', hb'⟩ := deals_attachScope steady hschema hconn hb
        (fun p hp => ⟨resolved p hp, hmem, hr⟩) keyed ihnested hscope
      simp only [Scans.deal, hr]
      exact ihrest hschema hconn' hb' hlater resolved
        (fun p hp => (keyed p hp).set field (Scans.key?_dealt ..)) hothers

/-- What a parent gets does not depend on its siblings: two batches of one session give it the
same, whatever else is in them. -/
theorem attach_siblings {s : Session} {m : Model} {w : Scans s.site.connection.database}
    {tree : Include} {batch batch₁ batch₂ rows₁ rows₂ : List Record} {p : Record} {i j : Nat}
    (hb : s.behind = []) (steady : w.Steady s.site.connection m.schema m.table tree batch)
    (in₁ : ∀ p ∈ batch₁, p ∈ batch) (in₂ : ∀ p ∈ batch₂, p ∈ batch)
    (h₁ : (s.run (m.attach tree batch₁).run).1 = .ok rows₁)
    (h₂ : (s.run (m.attach tree batch₂).run).1 = .ok rows₂)
    (hi : batch₁[i]? = some p) (hj : batch₂[j]? = some p) :
    ∃ q, rows₁[i]? = some q ∧ rows₂[j]? = some q := by
  have dealt {parents rows : List Record} (hbatch : ∀ p ∈ parents, p ∈ batch)
      (h : (s.run (m.attach tree parents).run).1 = .ok rows) :
      rows = parents.map (w.deal m.schema m.table tree) := by
    rw [← List.map_id parents] at h
    exact (deals steady tree rfl rfl hb (fun _ he => he) (fun p hp => .parent (hbatch p hp))
      (fun p _ => .refl p) (Prod.ext h rfl)).1
  refine ⟨w.deal m.schema m.table tree p, ?_, ?_⟩
  · rw [dealt in₁ h₁, List.getElem?_map, hi]
    rfl
  · rw [dealt in₂ h₂, List.getElem?_map, hj]
    rfl

def userPosts : Relation :=
  ⟨.oneToMany, "posts", "userId", "id"⟩

theorem checkFind_posts (vs : List Value) {order : Order}
    (known : userModel.schema.checkFields userPosts.target order.fields = .ok ()) :
    (userModel.related userPosts.target).checkFind
      { filter := Filter.merge [.test userPosts.targetKey (.among vs)] [], order } = .ok () := by
  rw [checkFind, checkFilter, Filter.merge, List.append_nil, Filter.fields, Filter.fields]
  exact known

/-- The first user gets the same posts alone as among all users. -/
theorem attach_siblings_users :
    ∃ rows₁ rows₂ q,
      ((Session.ofDatabase postDatabase).run
        (userModel.attach [("posts", postScope)] users).run).1 = .ok rows₁ ∧
      ((Session.ofDatabase postDatabase).run
        (userModel.attach [("posts", postScope)] [[("id", .integer 1)]]).run).1 = .ok rows₂ ∧
      rows₁[0]? = some q ∧ rows₂[0]? = some q := by
  have hknown : userModel.schema.relation? userModel.table "posts" = some userPosts := rfl
  have hfind (vs : List Value) := @checkFind_posts vs [("id", .descending)] rfl
  have hall : Record.distinctValues userPosts.parentKey [] users = [.integer 1, .integer 2] := rfl
  have hone : Record.distinctValues userPosts.parentKey [] [[("id", .integer 1)]] =
    [.integer 1] := rfl
  obtain ⟨rows₁, h₁⟩ : ∃ rows, ((Session.ofDatabase postDatabase).run
      (userModel.attach [("posts", postScope)] users).run).1 = .ok rows := by
    simp only [attach, hknown, postScope, attachScope, hall, hfind, List.isEmpty_cons,
      Bool.false_eq_true, if_false]
    exact ⟨_, rfl⟩
  obtain ⟨rows₂, h₂⟩ : ∃ rows, ((Session.ofDatabase postDatabase).run
      (userModel.attach [("posts", postScope)] [[("id", .integer 1)]]).run).1 = .ok rows := by
    simp only [attach, hknown, postScope, attachScope, hone, hfind, List.isEmpty_cons,
      Bool.false_eq_true, if_false]
    exact ⟨_, rfl⟩
  have hin : ∀ p ∈ [[("id", Value.integer 1)]], p ∈ users :=
    List.forall_mem_singleton.mpr List.mem_cons_self
  have hi : users[0]? = some [("id", .integer 1)] := rfl
  have hj : [[("id", Value.integer 1)]][0]? = some [("id", .integer 1)] := rfl
  obtain ⟨q, hq₁, hq₂⟩ := attach_siblings rfl granted_post.steady (fun _ hp => hp) hin h₁ h₂ hi hj
  exact ⟨rows₁, rows₂, q, h₁, h₂, hq₁, hq₂⟩

def postRow : Row :=
  ⟨1, [.text "a", .integer 1]⟩

def post : Record :=
  [("id", .text "a"), ("userId", .integer 1)]

/-- Where one value is asked for, the post is dealt if the store takes its key for equal. -/
theorem attach_posts {parents rows : List Record} {v : Value}
    (hkeys : Record.distinctValues userPosts.parentKey [] parents = [v])
    (h : ((Session.ofDatabase postDatabase).run
      (userModel.attach [("posts", {})] parents).run).1 = .ok rows) :
    rows = parents.map fun p => Entries.set p "posts" (.array ((userPosts.group
      (if (Test.compareTruth (postDatabase.frameOf userPosts.target) postRow userPosts.targetKey
        .equal v).holds then [post] else []) p).map .object)) := by
  have hknown : userModel.schema.relation? userModel.table "posts" = some userPosts := rfl
  rw [attach, hknown] at h
  obtain ⟨_, u, hscope, hrest⟩ := run_op_bind_ok (Prod.ext h rfl)
  rw [attach] at hrest
  obtain ⟨rfl, -⟩ := run_pure_ok hrest
  obtain ⟨hnil, -⟩ | ⟨-, cs, a, u, fetched, hcs, ha, -, -, hnested, rfl⟩ :=
    run_attachScope rfl hscope
  · rw [hkeys] at hnil
    cases hnil
  · rw [attach] at hnested
    obtain ⟨rfl, -⟩ := run_pure_ok hnested
    rw [hkeys] at hcs
    have hselects : Condition.selects (postDatabase.frameOf userPosts.target) cs postRow =
        (Test.compareTruth (postDatabase.frameOf userPosts.target) postRow userPosts.targetKey
          .equal v).holds := by
      rw [Filter.selects_merge hcs, List.any_cons, List.any_nil, Bool.or_false, Filter.truth]
      exact Bool.and_true _
    obtain ⟨-, c, _, hc, hnil, rfl⟩ := Filter.conditions_test hcs
    cases hnil
    obtain ⟨ss, -, rfl⟩ := map_eq_ok.mp hc
    have hrows : a.rows = (Order.sort (postDatabase.frameOf userPosts.target) []
        ([postRow].filter (Condition.selects (postDatabase.frameOf userPosts.target)
          [.among userPosts.targetKey ss]))).map
            (postDatabase.definitionOf userPosts.target).record :=
      Database.query_everything_single rfl (by decide) (Connection.execute_query_ok rfl ha)
    rw [List.filter_singleton, hselects] at hrows
    refine List.map_congr_left fun p _ => congrArg _ ?_
    rw [hrows]
    cases (Test.compareTruth (postDatabase.frameOf userPosts.target) postRow userPosts.targetKey
      .equal v).holds with
    | true =>
      simp only [cond_true, Order.sort, List.mergeSort_singleton]
      rfl
    | false =>
      simp only [cond_false, Order.sort, List.mergeSort_nil]
      rfl

/-- Two users whose keys are matched alike: the key of the one as a text, and as a number. -/
def sameKeyUsers : List Record :=
  [[("id", .text "1")], [("id", .integer 1)]]

/-- A sibling can cost a user a post. The text and the number have one key, so only the text is
asked for, which the store takes for different from the number of the post. -/
theorem attach_namesakes :
    ((Session.ofDatabase postDatabase).run (userModel.attach [("posts", {})] sameKeyUsers).run).1 =
        .ok [[("id", .text "1"), ("posts", .array [])],
          [("id", .integer 1), ("posts", .array [])]] ∧
      ((Session.ofDatabase postDatabase).run
        (userModel.attach [("posts", {})] [[("id", .integer 1)]]).run).1 =
          .ok [[("id", .integer 1), ("posts", .array [.object post])]] := by
  have hknown : userModel.schema.relation? userModel.table "posts" = some userPosts := rfl
  have hfind (vs : List Value) := @checkFind_posts vs [] rfl
  have hkey : (Value.text "1").key? = some (.integer 1) := by decide +kernel
  have hboth : Record.distinctValues userPosts.parentKey [] sameKeyUsers = [.text "1"] := by
    have hfirst : Record.keyOf? [("id", .text "1")] userPosts.parentKey = some (.integer 1) := hkey
    have hsecond : Record.keyOf? [("id", .integer 1)] userPosts.parentKey = some (.integer 1) := rfl
    rw [sameKeyUsers, Record.distinctValues, Record.distinctValues, hfirst, hsecond]
    rfl
  have halone : Record.distinctValues userPosts.parentKey [] [[("id", .integer 1)]] =
    [.integer 1] := rfl
  obtain ⟨rows₁, h₁⟩ : ∃ rows, ((Session.ofDatabase postDatabase).run
      (userModel.attach [("posts", {})] sameKeyUsers).run).1 = .ok rows := by
    simp only [attach, hknown, attachScope, hboth, hfind, List.isEmpty_cons, Bool.false_eq_true,
      if_false]
    exact ⟨_, rfl⟩
  obtain ⟨rows₂, h₂⟩ : ∃ rows, ((Session.ofDatabase postDatabase).run
      (userModel.attach [("posts", {})] [[("id", .integer 1)]]).run).1 = .ok rows := by
    simp only [attach, hknown, attachScope, halone, hfind, List.isEmpty_cons, Bool.false_eq_true,
      if_false]
    exact ⟨_, rfl⟩
  rw [h₁, h₂, attach_posts hboth h₁, attach_posts halone h₂]
  exact ⟨rfl, rfl⟩

end Model

end Relata
