import Relata.Proofs.Model.Alone
import Relata.Proofs.Script.Session
import Relata.Proofs.Store.Access
import Relata.Proofs.Store.Condition
import Relata.Proofs.Store.Sorting

/-! # Relations of a batch

Relations are attached to all parents of a batch by one query, and dealt out by keys. Each
parent gets what it would get alone.
-/

namespace Relata

namespace Entries

variable {α : Type}

theorem get?_extend_of_ne {entries : Entries α} {more : List (String × α)} {name : String}
    (h : ∀ e ∈ more, e.1 ≠ name) : get? (extend entries more) name = get? entries name := by
  induction more generalizing entries with
  | nil => rfl
  | cons e more ih =>
    obtain ⟨he, hmore⟩ := List.forall_mem_cons.mp h
    have : extend entries (e :: more) = extend (entries.set e.1 e.2) more := rfl
    rw [this, ih hmore, get?_set_of_ne _ _ he.symm]

theorem get?_extend_zip {names : List String} {as : List α} {entries : Entries α} {name : String}
    {i : Nat} (h : ∀ j, names[j]? = some name ↔ j = i) :
    get? (extend entries (names.zip as)) name = (as[i]?).or (get? entries name) := by
  induction names generalizing as entries i with
  | nil => exact absurd ((h i).mpr rfl) (by simp)
  | cons n names ih =>
    cases as with
    | nil => simp [extend]
    | cons a as =>
      have hcons : extend entries ((n :: names).zip (a :: as)) =
          extend (entries.set n a) (names.zip as) := rfl
      rw [hcons]
      cases i with
      | zero =>
        have hn : n = name := by simpa using (h 0).mpr rfl
        have hne : ∀ e ∈ names.zip as, e.1 ≠ name := by
          rintro ⟨m, b⟩ he rfl
          obtain ⟨j, hj⟩ := List.getElem?_of_mem (List.of_mem_zip he).1
          have := (h (j + 1)).mp hj
          omega
        rw [get?_extend_of_ne hne, hn, get?_set_self]
        rfl
      | succ i =>
        have hn : name ≠ n := by
          rintro rfl
          have := (h 0).mp rfl
          omega
        rw [ih fun j => by simpa using h (j + 1), get?_set_of_ne _ _ hn]
        rfl

end Entries

@[elab_as_elim]
theorem Include.induction {P : Include → Prop} (nil : P [])
    (cons : ∀ field scope rest, P scope.nested → P rest → P ((field, scope) :: rest))
    (tree : Include) : P tree :=
  @Scope.rec_1 (fun scope => P scope.nested) P (fun e => P e.2.nested) (fun _ _ _ _ _ h => h) nil
    (fun e rest he hrest => cons e.1 e.2 rest he hrest) (fun _ _ h => h) tree

namespace Value

theorem toScalar_ok {field : String} (other : String) {v : Value} {s : Scalar}
    (h : v.toScalar field = .ok s) : v.toScalar other = .ok s := by
  cases v with
  | real x =>
    simp only [toScalar] at h ⊢
    by_cases hx : x.isFinite = true
    · rwa [if_pos hx] at h ⊢
    · rw [if_neg hx] at h
      cases h
  | array | object => cases h
  | _ => exact h

theorem compareTruth_of_key?_eq_none {v : Value} (h : v.key? = none) (f : Frame) (row : Row)
    (field : String) : Test.compareTruth f row field .equal v = none := by
  rw [Test.compareTruth]
  cases hs : v.toScalar field with
  | error e => rfl
  | ok s =>
    rw [key?, toScalar_ok Record.key hs] at h
    cases s with
    | null => cases f.affinity field <;> cases f.scalar row field <;> rfl
    | _ => cases h

end Value

namespace Definition

theorem keyOf?_record {d : Definition} {name : String} (h : d.Spells name) (row : Row) :
    (d.record row).keyOf? name = (d.cell row name).toValue.key? := by
  obtain ⟨i, hi, hspelled⟩ := h
  rw [Record.keyOf?, record, Entries.ofList,
    Entries.get?_extend_zip hspelled, List.getElem?_map, cell_of_index? hi,
    List.getD_eq_getElem?_getD]
  cases row.cells[i]? <;> rfl

end Definition

namespace Record

theorem mem_of_mem_distinctValues {field : String} {v : Value} {seen : List Key}
    {rs : List Record} (h : v ∈ distinctValues field seen rs) :
    ∃ r ∈ rs, Entries.get? r field = some v := by
  induction rs generalizing seen with
  | nil => cases h
  | cons r rs ih =>
    have later {seen : List Key} (h : v ∈ distinctValues field seen rs) :
        ∃ r' ∈ r :: rs, Entries.get? r' field = some v :=
      let ⟨r', hr, hv⟩ := ih h
      ⟨r', List.mem_cons_of_mem _ hr, hv⟩
    rw [distinctValues] at h
    split at h
    · next u k hu _ =>
      split at h
      · exact later h
      · obtain rfl | h := List.mem_cons.mp h
        · exact ⟨r, List.mem_cons_self, hu⟩
        · exact later h
    · exact later h

/-- Every key has a value that stands for it. -/
theorem exists_mem_distinctValues {field : String} {k : Key} {seen : List Key}
    {rs : List Record} {r : Record} (hr : r ∈ rs) (hk : r.keyOf? field = some k) :
    k ∈ seen ∨ ∃ v ∈ distinctValues field seen rs, v.key? = some k := by
  induction rs generalizing seen with
  | nil => cases hr
  | cons r' rs ih =>
    rw [distinctValues]
    split
    · next u l hu hl =>
      have hul : u.key? = some l := by rwa [keyOf?, hu] at hl
      split
      · next hseen =>
        obtain rfl | hr := List.mem_cons.mp hr
        · exact Or.inl (Option.some.inj (hl.symm.trans hk) ▸ hseen)
        · exact ih hr
      · obtain rfl | hr := List.mem_cons.mp hr
        · exact Or.inr ⟨u, List.mem_cons_self, hul.trans (hl.symm.trans hk)⟩
        · obtain hseen | ⟨v, hv, hvk⟩ := @ih (l :: seen) hr
          · obtain rfl | hseen := List.mem_cons.mp hseen
            · exact Or.inr ⟨u, List.mem_cons_self, hul⟩
            · exact Or.inl hseen
          · exact Or.inr ⟨v, List.mem_cons_of_mem _ hv, hvk⟩
    · next hnone =>
      obtain rfl | hr := List.mem_cons.mp hr
      · -- A record with a key has a value under the field.
        cases hv : Entries.get? r field with
        | none => rw [keyOf?, hv] at hk; cases hk
        | some v => exact absurd hk (hnone v k hv)
      · exact ih hr

end Record

/-- What a comparison with a list of values and a filter select together. -/
theorem Filter.selects_merge {f : Frame} {field : String} {vs : List Value} {filter : Filter}
    {cs : List Condition} (h : conditions (merge [.test field (.among vs)] filter) = .ok cs)
    (row : Row) :
    Condition.selects f cs row =
      ((vs.any fun v => (Test.compareTruth f row field .equal v).holds) &&
        (truth f row filter).holds) := by
  rw [Condition.selects, Condition.all_truths, conjunctionTruth_conditions h]
  have : truth f row (merge [.test field (.among vs)] filter) =
      (Test.amongTruth f row field vs).and (truth f row filter) := rfl
  rw [this, Truth.holds_and, Test.amongTruth, Truth.holds_any, List.any_map]
  rfl

namespace Relation

theorem attached_eq (r : Relation) (page : Page) (select : Option Select) (rows : List Record) :
    r.attached page select rows =
      match r.cardinality with
      | .oneToMany => .array ((Select.narrowAll select (page.slice rows)).map .object)
      | .manyToOne => ((Select.narrowAll select rows).head?.map .object).getD .null := by
  rw [attached]
  cases r.cardinality with
  | oneToMany => rfl
  | manyToOne => cases rows <;> cases select <;> rfl

theorem belongs_of_keyOf?_eq_none {r : Relation} {p : Record} (h : p.keyOf? r.parentKey = none)
    (f : Frame) (row : Row) : r.belongs f p row = false := by
  rw [belongs]
  cases hv : Entries.get? p r.parentKey with
  | none => rfl
  | some v =>
    rw [Record.keyOf?, hv] at h
    simp only [Value.compareTruth_of_key?_eq_none h]
    rfl

end Relation

namespace Scans

variable {db : Database} {w : Scans db} {schema : Schema}

theorem attachment_eq (r : Relation) (scope : Scope) (p : Record) :
    w.attachment schema r p scope = r.attached scope.page scope.select
      (((scope.order.sort (db.frameOf r.target)
        ((w.rows r.target).filter (r.isRelated (db.frameOf r.target) scope.filter p))).map
          (db.definitionOf r.target).record).map
            (w.complete schema r.target scope.nested)) := by
  obtain ⟨filter, order, page, select, nested⟩ := scope
  rw [attachment, Relation.attached_eq, List.map_map]
  rfl

theorem exists_of_mem_attachments {table : String} {tree : Include} {p : Record}
    {e : String × Value} (h : e ∈ w.attachments schema table p tree) :
    ∃ scope r, (e.1, scope) ∈ tree ∧ schema.relation? table e.1 = some r := by
  induction tree with
  | nil => rw [attachments] at h; cases h
  | cons entry rest ih =>
    obtain ⟨field, scope⟩ := entry
    have later (h : e ∈ w.attachments schema table p rest) :
        ∃ scope' r, (e.1, scope') ∈ (field, scope) :: rest ∧ schema.relation? table e.1 = some r :=
      let ⟨scope', r, hmem, hr⟩ := ih h
      ⟨scope', r, List.mem_cons_of_mem _ hmem, hr⟩
    rw [attachments] at h
    split at h
    · exact later h
    · next r hr =>
      obtain rfl | h := List.mem_cons.mp h
      · exact ⟨scope, r, List.mem_cons_self, hr⟩
      · exact later h

theorem exists_of_mem_select {r : Relation} {filter : Filter} {order : Order}
    {parents : List Record} {g : Record → Record}
    (same : ∀ p ∈ parents, Entries.get? (g p) r.parentKey = Entries.get? p r.parentKey)
    {cs : List Condition}
    (hcs : Filter.conditions (Filter.merge [.test r.targetKey
      (.among (Record.distinctValues r.parentKey [] (parents.map g)))] filter) = .ok cs)
    {q : Record} (hq : q ∈ w.select r.target cs order) :
    ∃ p ∈ parents, ∃ row ∈ w.rows r.target, q = (db.definitionOf r.target).record row ∧
      r.isRelated (db.frameOf r.target) filter p row = true := by
  obtain ⟨row, hrow, rfl⟩ := List.mem_map.mp hq
  obtain ⟨hrow, hselects⟩ := List.mem_filter.mp (List.mem_mergeSort.mp hrow)
  rw [Filter.selects_merge hcs, Bool.and_eq_true] at hselects
  obtain ⟨v, hv, hequal⟩ := List.any_eq_true.mp hselects.1
  obtain ⟨_, hgp, hpv⟩ := Record.mem_of_mem_distinctValues hv
  obtain ⟨p, hp, rfl⟩ := List.mem_map.mp hgp
  rw [same p hp] at hpv
  refine ⟨p, hp, row, hrow, rfl, ?_⟩
  rw [Relation.isRelated, Relation.belongs, hpv, Bool.and_eq_true]
  exact ⟨hequal, hselects.2⟩

end Scans

namespace Scans.Granted

variable {c : Connection} {w : Scans c.database} {schema : Schema} {table table' : String}
  {tree tree' : Include} {batch parents : List Record} {field : String} {scope : Scope}
  {r : Relation} {g : Record → Record}

theorem any_compareTruth (granted : w.Granted c schema table tree batch)
    (attached : ∀ p ∈ parents, w.Attached schema table tree batch table' tree' p field scope r)
    (same : ∀ p ∈ parents, Entries.get? (g p) r.parentKey = Entries.get? p r.parentKey)
    {p : Record} (hp : p ∈ parents) {k : Key} (hk : p.keyOf? r.parentKey = some k) {row : Row}
    (hrow : row ∈ w.rows r.target)
    (hkey : ((c.database.definitionOf r.target).cell row r.targetKey).toValue.key? = some k) :
    ((Record.distinctValues r.parentKey [] (parents.map g)).any fun v =>
      (Test.compareTruth (c.database.frameOf r.target) row r.targetKey .equal v).holds) = true := by
  have hgk : (g p).keyOf? r.parentKey = some k := by rw [Record.keyOf?, same p hp]; exact hk
  obtain hnil | ⟨v, hv, hvk⟩ :=
    @Record.exists_mem_distinctValues r.parentKey k [] _ _ (List.mem_map_of_mem hp) hgk
  · cases hnil
  · obtain ⟨q, hq, hqv⟩ := Record.mem_of_mem_distinctValues hv
    obtain ⟨p', hp', rfl⟩ := List.mem_map.mp hq
    rw [same p' hp'] at hqv
    exact List.any_eq_true.mpr ⟨v, hv, (granted.keys (attached p' hp') hqv hvk hrow).mp hkey⟩

/-- The related rows of a parent, among those that were selected for all parents. -/
theorem filter_select (granted : w.Granted c schema table tree batch)
    (attached : ∀ p ∈ parents, w.Attached schema table tree batch table' tree' p field scope r)
    (same : ∀ p ∈ parents, Entries.get? (g p) r.parentKey = Entries.get? p r.parentKey)
    {cs : List Condition}
    (hcs : Filter.conditions (Filter.merge [.test r.targetKey
      (.among (Record.distinctValues r.parentKey [] (parents.map g)))] scope.filter) = .ok cs)
    {p : Record} (hp : p ∈ parents) {k : Key} (hk : p.keyOf? r.parentKey = some k) :
    (w.select r.target cs scope.order).filter (fun row => row.keyOf? r.targetKey = some k) =
      (scope.order.sort (c.database.frameOf r.target) ((w.rows r.target).filter
        (r.isRelated (c.database.frameOf r.target) scope.filter p))).map
          (c.database.definitionOf r.target).record := by
  have spelled := granted.spelled (attached p hp)
  obtain ⟨v, hv, hvk⟩ := Option.bind_eq_some_iff.mp hk
  rw [select, List.filter_map, Order.filter_sort, List.filter_filter]
  refine congrArg _ (congrArg _ (List.filter_congr fun row hrow => ?_))
  have hkeys := granted.keys (attached p hp) hv hvk hrow
  have hrecord : ((c.database.frameOf r.target).definition.record row).keyOf? r.targetKey =
      ((c.database.definitionOf r.target).cell row r.targetKey).toValue.key? :=
    Definition.keyOf?_record spelled row
  have hbelongs : r.belongs (c.database.frameOf r.target) p row =
      (Test.compareTruth (c.database.frameOf r.target) row r.targetKey .equal v).holds := by
    rw [Relation.belongs, hv]
  rw [Filter.selects_merge hcs, Relation.isRelated, hbelongs, Function.comp_apply, hrecord]
  by_cases heq : (Test.compareTruth (c.database.frameOf r.target) row r.targetKey .equal v).holds
  · rw [any_compareTruth granted attached same hp hk hrow (hkeys.mpr heq), heq,
      decide_eq_true (hkeys.mpr heq), Bool.true_and]
  · rw [decide_eq_false fun h => heq (hkeys.mp h), Bool.not_eq_true _ |>.mp heq,
      Bool.false_and, Bool.false_and]

/-- A parent is dealt what it would get alone. -/
theorem attached_group (granted : w.Granted c schema table tree batch)
    (attached : ∀ p ∈ parents, w.Attached schema table tree batch table' tree' p field scope r)
    (same : ∀ p ∈ parents, Entries.get? (g p) r.parentKey = Entries.get? p r.parentKey)
    {cs : List Condition}
    (hcs : Filter.conditions (Filter.merge [.test r.targetKey
      (.among (Record.distinctValues r.parentKey [] (parents.map g)))] scope.filter) = .ok cs)
    {p : Record} (hp : p ∈ parents) :
    r.attached scope.page scope.select
        (r.group ((w.select r.target cs scope.order).map
          (w.complete schema r.target scope.nested)) (g p)) =
      w.attachment schema r p scope := by
  have hgk : (g p).keyOf? r.parentKey = p.keyOf? r.parentKey := by
    rw [Record.keyOf?, same p hp, Record.keyOf?]
  -- What is attached to a row does not change its key.
  have hcomplete (row : Record) :
      (w.complete schema r.target scope.nested row).keyOf? r.targetKey =
        row.keyOf? r.targetKey := by
    rw [Record.keyOf?, complete, Entries.get?_extend_of_ne, Record.keyOf?]
    intro e he
    obtain ⟨scope', r', hmem, hr'⟩ := exists_of_mem_attachments he
    exact granted.apartBelow (attached p hp) hmem hr'
  rw [attachment_eq, Relation.group, hgk]
  congr 1
  cases hk : p.keyOf? r.parentKey with
  | none =>
    have : (w.rows r.target).filter
        (r.isRelated (c.database.frameOf r.target) scope.filter p) = [] :=
      List.filter_eq_nil_iff.mpr fun row _ => by
        rw [Relation.isRelated, Relation.belongs_of_keyOf?_eq_none hk]
        simp
    rw [this]
    simp [Order.sort]
  | some k =>
    rw [← filter_select granted attached same hcs hp hk]
    simp only [List.filter_map, Function.comp_def, hcomplete]

theorem attached_nil
    (same : ∀ p ∈ parents, Entries.get? (g p) r.parentKey = Entries.get? p r.parentKey)
    (hnil : Record.distinctValues r.parentKey [] (parents.map g) = []) {p : Record}
    (hp : p ∈ parents) :
    r.attached scope.page scope.select (r.group [] (g p)) = w.attachment schema r p scope := by
  have hgk : (g p).keyOf? r.parentKey = none := by
    rw [Option.eq_none_iff_forall_ne_some]
    intro k hk
    obtain h | ⟨v, hv, _⟩ :=
      @Record.exists_mem_distinctValues r.parentKey k [] _ _ (List.mem_map_of_mem hp) hk
    · cases h
    · rw [hnil] at hv
      cases hv
  have hk : p.keyOf? r.parentKey = none := by rw [← hgk, Record.keyOf?, Record.keyOf?, same p hp]
  have hrows : (w.rows r.target).filter
      (r.isRelated (c.database.frameOf r.target) scope.filter p) = [] :=
    List.filter_eq_nil_iff.mpr fun row _ => by
      rw [Relation.isRelated, Relation.belongs_of_keyOf?_eq_none hk]
      simp
  rw [attachment_eq, hrows, Relation.group, hgk]
  simp [Order.sort]

end Scans.Granted

theorem Order.eq_of_checked {order o : Order} (h : order.checked = .ok o) : o = order := by
  induction order generalizing o with
  | nil =>
    cases h
    rfl
  | cons e rest ih =>
    obtain ⟨field, d⟩ := e
    obtain ⟨field', hf, h⟩ := bind_eq_ok.mp h
    obtain ⟨rest', hr, h⟩ := bind_eq_ok.mp h
    cases h
    rw [(Filter.checkedName_eq_ok hf).1, ih hr]

namespace Model

open Session

variable {c : Connection} {s t : Session} {m : Model} {rows : List Record}

theorem run_select {filter : Filter} {order : Order} (hb : s.behind = [])
    (h : s.run (m.select filter order {}).run = (.ok rows, t)) :
    ∃ cs a, Filter.conditions filter = .ok cs ∧
      (s.site.connection.execute (.query .everything m.table cs order {})).1 = .ok a ∧
      rows = a.rows ∧ t.site.connection = s.site.connection ∧ t.behind = [] := by
  rw [select] at h
  obtain ⟨cs, _, hlift, hrest⟩ := run_op_bind_ok h
  obtain ⟨hcs, rfl⟩ := run_lift_ok hlift
  obtain ⟨k, _, hlift', hrest'⟩ := run_op_bind_ok hrest
  obtain ⟨hk, rfl⟩ := run_lift_ok hlift'
  obtain ⟨a, _, ha, hpure⟩ := run_op_bind_ok hrest'
  obtain ⟨rfl, rfl⟩ := run_pure_ok hpure
  obtain ⟨table, htable, hquery⟩ := bind_eq_ok.mp hk
  obtain ⟨order', horder, hdone⟩ := bind_eq_ok.mp hquery
  cases hdone
  obtain ⟨rfl, _⟩ := Filter.checkedName_eq_ok htable
  rw [Order.eq_of_checked horder] at ha
  obtain ⟨hexec, hconn, hbehind⟩ := run_perform_select rfl hb ha
  exact ⟨cs, a, hcs, hexec, rfl, hconn, hbehind⟩

theorem run_attachScope {field : String} {r : Relation} {scope : Scope} {parents : List Record}
    (hb : s.behind = [])
    (h : s.run (m.attachScope field r scope parents).run = (.ok rows, t)) :
    (Record.distinctValues r.parentKey [] parents = [] ∧ t = s ∧
      rows = parents.map fun p =>
        Entries.set p field (r.attached scope.page scope.select (r.group [] p))) ∨
    (Record.distinctValues r.parentKey [] parents ≠ [] ∧ ∃ cs a, ∃ u : Session, ∃ fetched,
      Filter.conditions (Filter.merge [.test r.targetKey
        (.among (Record.distinctValues r.parentKey [] parents))] scope.filter) = .ok cs ∧
      (s.site.connection.execute (.query .everything r.target cs scope.order {})).1 = .ok a ∧
      u.site.connection = s.site.connection ∧ u.behind = [] ∧
      u.run ((m.related r.target).attach scope.nested a.rows).run = (.ok fetched, t) ∧
      rows = parents.map fun p =>
        Entries.set p field (r.attached scope.page scope.select (r.group fetched p))) := by
  obtain ⟨filter, order, page, select, nested⟩ := scope
  rw [attachScope] at h
  by_cases hnil : Record.distinctValues r.parentKey [] parents = []
  · rw [hnil] at h
    obtain ⟨_, _, hnone, hpure⟩ := run_op_bind_ok h
    obtain ⟨rfl, rfl⟩ := run_pure_ok hnone
    obtain ⟨rfl, rfl⟩ := run_pure_ok hpure
    exact Or.inl ⟨hnil, rfl, rfl⟩
  · rw [if_neg (by simpa using hnil)] at h
    obtain ⟨_, _, hlift, hquery⟩ := run_op_bind_ok h
    obtain ⟨_, rfl⟩ := run_lift_ok hlift
    obtain ⟨selected, u, hselect, hnested⟩ := run_op_bind_ok hquery
    obtain ⟨cs, a, hcs, ha, rfl, hconn, hbehind⟩ := run_select hb hselect
    obtain ⟨fetched, _, hattach, hpure⟩ := run_op_bind_ok hnested
    obtain ⟨rfl, rfl⟩ := run_pure_ok hpure
    exact Or.inr ⟨hnil, cs, a, u, fetched, hcs, ha, hconn, hbehind, hattach, rfl⟩

section Batch

variable {w : Scans c.database} {schema : Schema} {table : String} {tree : Include}
  {batch : List Record}

/-- A tree is attached to all parents on the way as it would be to each of them alone. The
parents may have other relations attached already, as long as their keys are the same. -/
def AttachesAlone (w : Scans c.database) (schema : Schema) (table : String) (tree : Include)
    (batch : List Record) (rest : Include) : Prop :=
  ∀ {m : Model} {s t : Session} {tree' : Include} {parents rows : List Record}
    {g : Record → Record}, m.schema = schema → s.site.connection = c → s.behind = [] →
    (∀ e ∈ rest, e ∈ tree') →
    (∀ p ∈ parents, w.Resolved schema table tree batch m.table tree' p) →
    (∀ p ∈ parents, ∀ field scope r, (field, scope) ∈ tree' →
      schema.relation? m.table field = some r →
        Entries.get? (g p) r.parentKey = Entries.get? p r.parentKey) →
    s.run (m.attach rest (parents.map g)).run = (.ok rows, t) →
    rows = parents.map (fun p => Entries.extend (g p) (w.attachments schema m.table p rest)) ∧
      t.site.connection = c ∧ t.behind = []

/-- One relation is attached to all parents as to each alone, if those below it are. -/
theorem run_attachScope_alone (granted : w.Granted c schema table tree batch)
    {tree' : Include} {parents : List Record} {g : Record → Record} {field : String}
    {scope : Scope} {r : Relation} (hschema : m.schema = schema) (hconn : s.site.connection = c)
    (hb : s.behind = [])
    (attached : ∀ p ∈ parents,
      w.Attached schema table tree batch m.table tree' p field scope r)
    (same : ∀ p ∈ parents, Entries.get? (g p) r.parentKey = Entries.get? p r.parentKey)
    (below : AttachesAlone w schema table tree batch scope.nested)
    (h : s.run (m.attachScope field r scope (parents.map g)).run = (.ok rows, t)) :
    rows = parents.map (fun p => Entries.set (g p) field (w.attachment schema r p scope)) ∧
      t.site.connection = c ∧ t.behind = [] := by
  obtain ⟨hnil, rfl, rfl⟩ | ⟨hne, cs, a, v, fetched, hcs, ha, hv, hbv, hnested, rfl⟩ :=
    run_attachScope hb h
  · refine ⟨?_, hconn, hb⟩
    rw [List.map_map]
    exact List.map_congr_left fun p hp => congrArg _ (Scans.Granted.attached_nil same hnil hp)
  · obtain ⟨p₀, hp₀⟩ := List.exists_mem_of_ne_nil parents fun hnil => hne (by rw [hnil]; rfl)
    rw [hconn] at ha
    rw [granted.scans (attached p₀ hp₀) hne hcs ha, ← List.map_id (w.select ..)] at hnested
    have resolved : ∀ q ∈ w.select r.target cs scope.order,
        w.Resolved schema table tree batch r.target scope.nested q := by
      intro q hq
      obtain ⟨p, hp, row, hrow, rfl, hrelated⟩ := Scans.exists_of_mem_select same hcs hq
      exact .related (attached p hp).resolved (attached p hp).mem (attached p hp).known hrow
        hrelated
    obtain ⟨rfl, hconn', hb'⟩ := below (m := m.related r.target) hschema (hv.trans hconn) hbv
      (fun _ he => he) resolved (fun _ _ _ _ _ _ _ => rfl) hnested
    refine ⟨?_, hconn', hb'⟩
    rw [List.map_map]
    exact List.map_congr_left fun p hp =>
      congrArg _ (granted.attached_group attached same hcs hp)

theorem attachesAlone (granted : w.Granted c schema table tree batch) (rest : Include) :
    AttachesAlone w schema table tree batch rest := by
  induction rest using Include.induction with
  | nil =>
    intro m s t tree' parents rows g _ hconn hb _ _ _ h
    rw [attach] at h
    obtain ⟨rfl, rfl⟩ := run_pure_ok h
    exact ⟨by simp [Scans.attachments, Entries.extend], hconn, hb⟩
  | cons field scope rest ihnested ihrest =>
    intro m s t tree' parents rows g hschema hconn hb hrest resolved same h
    obtain ⟨hmem, hlater⟩ := List.forall_mem_cons.mp hrest
    rw [attach, hschema] at h
    cases hr : schema.relation? m.table field with
    | none =>
      rw [hr] at h
      simp only [Scans.attachments, hr]
      exact ihrest hschema hconn hb hlater resolved same h
    | some r =>
      rw [hr] at h
      obtain ⟨_, u, hscope, hothers⟩ := run_op_bind_ok h
      obtain ⟨rfl, hconn', hb'⟩ := run_attachScope_alone granted hschema hconn hb
        (fun p hp => ⟨resolved p hp, hmem, hr⟩) (fun p hp => same p hp field scope r hmem hr)
        ihnested hscope
      -- The new field is no key of the relations that are still to be attached.
      have same' : ∀ p ∈ parents, ∀ field' scope' r', (field', scope') ∈ tree' →
          schema.relation? m.table field' = some r' →
          Entries.get? (Entries.set (g p) field (w.attachment schema r p scope)) r'.parentKey =
            Entries.get? p r'.parentKey := by
        intro p hp field' scope' r' hmem' hr'
        rw [Entries.get?_set_of_ne _ _
          (granted.apart ⟨resolved p hp, hmem, hr⟩ ⟨resolved p hp, hmem', hr'⟩).symm]
        exact same p hp field' scope' r' hmem' hr'
      simp only [Scans.attachments, hr]
      exact ihrest hschema hconn' hb' hlater resolved same' hothers

/-- What a tree attaches to a batch is what it would attach to each parent alone: the rows of
each relation that belong to the parent. Where the parent alone is resolved, it is the same. -/
theorem attach_alone {s : Session} {m : Model} {w : Scans s.site.connection.database}
    {tree : Include} {parents rows : List Record} (hb : s.behind = [])
    (granted : w.Granted s.site.connection m.schema m.table tree parents)
    (h : (s.run (m.attach tree parents).run).1 = .ok rows) :
    rows = parents.map (w.complete m.schema m.table tree) ∧
      ∀ p ∈ parents, ∀ rows', (s.run (m.attach tree [p]).run).1 = .ok rows' →
        rows' = [w.complete m.schema m.table tree p] := by
  have alone {batch rows : List Record} (hbatch : ∀ p ∈ batch, p ∈ parents)
      (h : (s.run (m.attach tree batch).run).1 = .ok rows) :
      rows = batch.map (w.complete m.schema m.table tree) := by
    rw [← List.map_id batch] at h
    exact (attachesAlone granted tree rfl rfl hb (fun _ he => he)
      (fun p hp => .parent (hbatch p hp)) (fun _ _ _ _ _ _ _ => rfl) (Prod.ext h rfl)).1
  exact ⟨alone (fun _ hp => hp) h, fun p hp rows' h' => alone (by simpa using hp) h'⟩

end Batch

def userSchema : Schema :=
  { relationsOf := [("users", [("posts", ⟨.oneToMany, "posts", "userId", "id"⟩)])] }

def userModel : Model :=
  { table := "users", handle := {}, schema := userSchema, depthLimit := 5 }

def users : List Record :=
  [[("id", .integer 1)], [("id", .integer 2)]]

def postDatabase : Database :=
  { tables := [
      { definition := { name := "posts", columns := [{ name := "id" }, { name := "userId" }] }
        rows := [⟨1, [.text "a", .integer 1]⟩] }] }

def postScans : Scans postDatabase where
  rows := postDatabase.rowsOf
  perm _ := .refl _

def postScope : Scope :=
  { order := [("id", .descending)], page := { take := some 1 } }

theorem attached_post {table' : String} {tree' : Include} {p : Record} {field : String}
    {scope : Scope} {r : Relation}
    (h : postScans.Attached userSchema "users" [("posts", postScope)] users table' tree' p field
      scope r) :
    p ∈ users ∧ field = "posts" ∧ scope = postScope ∧
      r = ⟨.oneToMany, "posts", "userId", "id"⟩ := by
  have below {t : String} {tree : Include} {q : Record}
      (hq : postScans.Resolved userSchema "users" [("posts", postScope)] users t tree q) :
      (t = "users" ∧ tree = [("posts", postScope)] ∧ q ∈ users) ∨ tree = [] := by
    induction hq with
    | parent mem => exact Or.inl ⟨rfl, rfl, mem⟩
    | related _ mem _ _ _ ih =>
      obtain ⟨rfl, rfl, _⟩ | rfl := ih
      · obtain ⟨_, rfl⟩ := Prod.mk.inj (List.mem_singleton.mp mem)
        exact Or.inr rfl
      · cases mem
  obtain ⟨rfl, rfl, hp⟩ | rfl := below h.resolved
  · obtain ⟨rfl, rfl⟩ := Prod.mk.inj (List.mem_singleton.mp h.mem)
    exact ⟨hp, rfl, rfl, (Option.some.inj h.known).symm⟩
  · cases h.mem

theorem granted_post : postScans.Granted { database := postDatabase } userSchema "users"
    [("posts", postScope)] users where
  keys h hv hk hrow := by
    obtain ⟨hp, -, -, rfl⟩ := attached_post h
    cases List.mem_singleton.mp hrow
    simp only [users, List.mem_cons, List.not_mem_nil, or_false] at hp
    obtain rfl | rfl := hp <;> cases hv <;> cases hk <;> decide
  apart h h' := by
    obtain ⟨-, rfl, -, -⟩ := attached_post h
    obtain ⟨-, -, -, rfl⟩ := attached_post h'
    decide
  apartBelow h hmem _ := by
    obtain ⟨-, -, rfl, -⟩ := attached_post h
    cases hmem
  spelled h := by
    obtain ⟨-, -, -, rfl⟩ := attached_post h
    refine ⟨1, rfl, fun j => ?_⟩
    match j with
    | 0 => decide
    | 1 => decide
    | j + 2 =>
      change (none : Option String) = _ ↔ _
      simp
  scans h _ hcs ha := by
    obtain ⟨-, -, rfl, rfl⟩ := attached_post h
    obtain ⟨-, c, _, hc, hnil, rfl⟩ := Filter.conditions_test hcs
    cases hnil
    rename_i vs _ _
    obtain ⟨v, vs, rfl⟩ := List.exists_cons_of_ne_nil ‹vs ≠ []›
    obtain ⟨ss, -, rfl⟩ := map_eq_ok.mp hc
    exact Database.query_everything_single rfl (by decide)
      (Connection.execute_query_ok rfl ha)

theorem attach_alone_users :
    ∃ rows, ((Session.ofDatabase postDatabase).run
        (userModel.attach [("posts", postScope)] users).run).1 = .ok rows ∧
      rows = users.map (postScans.complete userSchema "users" [("posts", postScope)]) := by
  have hfind : (userModel.related "posts").checkFind
      { filter := Filter.merge [.test "userId" (.among [.integer 1, .integer 2])] []
        order := [("id", .descending)] } = .ok () := by
    rw [checkFind, checkFilter, Filter.merge, List.append_nil, Filter.fields, Filter.fields]
    rfl
  have hknown : userModel.schema.relation? userModel.table "posts" =
      some ⟨.oneToMany, "posts", "userId", "id"⟩ := rfl
  have hkeys : Record.distinctValues "id" [] users = [.integer 1, .integer 2] := rfl
  obtain ⟨rows, h⟩ : ∃ rows, ((Session.ofDatabase postDatabase).run
      (userModel.attach [("posts", postScope)] users).run).1 = .ok rows := by
    simp only [attach, hknown, postScope, attachScope, Relation.parentKey, Relation.targetKey,
      hkeys, hfind, List.isEmpty_cons, Bool.false_eq_true, if_false]
    exact ⟨_, rfl⟩
  exact ⟨rows, h, (attach_alone rfl granted_post h).1⟩

end Model

end Relata
