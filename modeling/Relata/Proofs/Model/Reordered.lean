import Relata.Proofs.Model.Added
import Relata.Proofs.Model.Following
import Relata.Proofs.Value.Same

/-! # Relations in another order

The relations of a tree are attached one after another, each by the keys that the records have
by then. If none of them is the key of another, each attaches what it would attach to the batch
as it was given, so that their order makes no difference to any field.
-/

namespace Relata

/-! ### Sessions that only read -/

theorem Job.Selects.ne_shut {job : Job} (selects : job.Selects) : job ≠ .shut := by
  obtain ⟨k, rfl, -⟩ := selects
  nofun

theorem Job.Selects.stays {job : Job} (selects : job.Selects) (c : Connection) :
    c = (c.perform job).2 := by
  obtain ⟨k, rfl, hk⟩ := selects
  exact (Connection.snd_execute_of_select hk).symm

namespace Session

variable {s t : Session}

theorem follows_reads {α : Type} {h : Handle} {x : Op α} (asks : h.Asks Job.Selects x)
    (hb : s.behind = []) : s.Follows (· = ·) (s.run x.run).2 :=
  asks.follows (fun _ => rfl) Eq.trans (fun _ selects => ⟨selects.ne_shut, selects.stays⟩) hb

theorem Follows.perform_eq (hb : s.behind = []) (follows : s.Follows (· = ·) t) {job : Job}
    (hj : job ≠ .shut) : (t.perform job).1 = (s.perform job).1 := by
  rw [perform_of_behind hb, perform_of_behind follows.behind]
  cases isOpen : s.site.isOpen with
  | false =>
    rw [Site.perform_of_shut isOpen hj, Site.perform_of_shut (follows.isOpen.trans isOpen) hj]
  | true =>
    rw [Site.perform_of_isOpen isOpen hj, Site.perform_of_isOpen (follows.isOpen.trans isOpen) hj,
      follows.connection]

/-- What only reads has the same result wherever the store is the same. -/
theorem Follows.run_eq {α : Type} {h : Handle} {x : Op α} (asks : h.Asks Job.Selects x)
    (hb : s.behind = []) (follows : s.Follows (· = ·) t) :
    (t.run x.run).1 = (s.run x.run).1 := by
  induction asks generalizing s t with
  | decided result => rfl
  | @bind _ _ x f first rest ihx ihf =>
    have hs := follows_reads first hb
    have ht := follows_reads first follows.behind
    have hx := ihx hb follows
    rw [run_op_bind, run_op_bind]
    rcases hrs : s.run x.run with ⟨result, u⟩
    rcases hrt : t.run x.run with ⟨result', v⟩
    rw [hrs] at hs hx
    rw [hrt] at ht hx
    obtain rfl : result' = result := hx
    cases result' with
    | error e => rfl
    | ok a =>
      have back : u.Follows (· = ·) s := hs.symm Eq.symm hb
      have across : u.Follows (· = ·) t := back.trans Eq.trans follows
      exact ihf a hs.behind (across.trans Eq.trans ht)
  | @perform job selects =>
    cases hm : h.mode with
    | transaction =>
      rw [run_perform_inside hm, run_perform_inside hm]
      exact follows.perform_eq hb selects.ne_shut
    | autocommit =>
      rw [run_perform_outside hm, run_perform_outside hm, follows.bodies]
      split
      · refine Follows.perform_eq (s := { s with holds := true }) (t := { t with holds := true })
          hb ?_ selects.ne_shut
        exact ⟨follows.connection, follows.behind, follows.bodies, follows.isOpen⟩
      · rfl

end Session

/-! ### What each relation attaches -/

namespace Entries

variable {α : Type} {as bs : Entries α}

theorem get?_eq_of_perm (perm : as.Perm bs) (distinct : Distinct as) (name : String) :
    get? as name = get? bs name := by
  have distinct' : Distinct bs := (perm.map Prod.fst).nodup distinct
  cases ha : get? as name with
  | some a => exact (get?_of_mem distinct' (perm.mem_iff.mp (mem_of_get? ha))).symm
  | none =>
    cases hb : get? bs name with
    | none => rfl
    | some b =>
      rw [get?_of_mem distinct (perm.mem_iff.mpr (mem_of_get? hb))] at ha
      cases ha

theorem get?_extend_of_perm (perm : as.Perm bs) (distinct : Distinct as) (entries : Entries α)
    (name : String) : get? (extend entries as) name = get? (extend entries bs) name := by
  have perm' : as.reverse.Perm bs.reverse :=
    (List.reverse_perm as).trans (perm.trans (List.reverse_perm bs).symm)
  have distinct' : Distinct as.reverse := ((List.reverse_perm as).symm.map Prod.fst).nodup distinct
  rw [get?_extend, get?_extend, get?_eq_of_perm perm' distinct']

end Entries

theorem Record.distinctValues_map {field : String} {g : Record → Record} {ps : List Record}
    (same : ∀ p ∈ ps, Entries.get? (g p) field = Entries.get? p field) (seen : List Key) :
    distinctValues field seen (ps.map g) = distinctValues field seen ps := by
  induction ps generalizing seen with
  | nil => rfl
  | cons p ps ih =>
    obtain ⟨hp, hps⟩ := List.forall_mem_cons.mp same
    have hk : (g p).keyOf? field = p.keyOf? field := by rw [keyOf?, keyOf?, hp]
    rw [List.map_cons, distinctValues, distinctValues, hp, hk]
    simp only [ih hps]

namespace Model

variable {m : Model} {s t : Session} {tree tree' rest : Include} {parents rows : List Record}

/-- No relation of a tree is attached under the field of another one's key. -/
def Apart (m : Model) (tree : Include) : Prop :=
  ∀ ⦃field r field' r'⦄, m.Includes tree field r → m.Includes tree field' r' → field ≠ field' →
    field ≠ r'.parentKey

theorem Apart.of_cons {e : String × Scope} (apart : m.Apart (e :: rest)) : m.Apart rest :=
  fun _ _ _ _ h h' => apart ⟨List.mem_cons_of_mem _ h.1, h.2⟩ ⟨List.mem_cons_of_mem _ h'.1, h'.2⟩

theorem Apart.get?_set {field field' : String} {scope : Scope} {r r' : Relation}
    (apart : m.Apart ((field, scope) :: rest)) (fresh : field ∉ rest.names)
    (known : m.schema.relation? m.table field = some r) (h : m.Includes rest field' r')
    (p : Record) (v : Value) :
    Entries.get? (Entries.set p field v) r'.parentKey = Entries.get? p r'.parentKey := by
  have hne : field ≠ r'.parentKey := by
    refine apart ⟨List.mem_cons_self, known⟩ ⟨List.mem_cons_of_mem _ h.1, h.2⟩ ?_
    rintro rfl
    exact fresh h.1
  exact Entries.get?_set_of_ne _ _ hne.symm

theorem Includes.of_perm (perm : tree.Perm tree') {field : String} {r : Relation}
    (h : m.Includes tree field r) : m.Includes tree' field r :=
  ⟨(perm.map Prod.fst).mem_iff.mp h.1, h.2⟩

theorem Apart.of_perm (perm : tree.Perm tree') (apart : m.Apart tree) : m.Apart tree' :=
  fun _ _ _ _ h h' => apart (h.of_perm perm.symm) (h'.of_perm perm.symm)

def fetched (m : Model) (s : Session) (parents : List Record) (r : Relation) (scope : Scope) :
    Except Failure (List Record) :=
  (s.run (m.relatedRows r scope parents).run).1

/-- What the relations of a tree attach to a record of a batch, each to the batch as it is
given. -/
def supplies (m : Model) (s : Session) (parents : List Record) (tree : Include) (p : Record) :
    Entries Value :=
  tree.filterMap fun e => (m.schema.relation? m.table e.1).map fun r =>
    (e.1, r.attached e.2.page e.2.select
      (r.group ((m.fetched s parents r e.2).toOption.getD []) p))

def Fetches (m : Model) (s : Session) (parents : List Record) (tree : Include) : Prop :=
  ∀ e ∈ tree, ∀ r, m.schema.relation? m.table e.1 = some r →
    ∃ rows, m.fetched s parents r e.2 = .ok rows

theorem fetches_nil : m.Fetches s parents [] := by
  simp [Fetches]

section

variable {field : String} {scope : Scope}

theorem supplies_of_unknown (unknown : m.schema.relation? m.table field = none) :
    m.supplies s parents ((field, scope) :: rest) = m.supplies s parents rest := by
  funext p
  simp only [supplies, List.filterMap_cons, unknown, Option.map_none]

theorem supplies_of_known {r : Relation} (known : m.schema.relation? m.table field = some r)
    {fetched : List Record} (h : m.fetched s parents r scope = .ok fetched) (p : Record) :
    m.supplies s parents ((field, scope) :: rest) p =
      (field, r.attached scope.page scope.select (r.group fetched p)) ::
        m.supplies s parents rest p := by
  simp only [supplies, List.filterMap_cons, known, h, Option.map_some]
  rfl

theorem fetches_of_unknown (unknown : m.schema.relation? m.table field = none) :
    m.Fetches s parents ((field, scope) :: rest) ↔ m.Fetches s parents rest := by
  rw [Fetches, List.forall_mem_cons]
  simp only [unknown]
  exact and_iff_right nofun

theorem fetches_of_known {r : Relation} (known : m.schema.relation? m.table field = some r) :
    m.Fetches s parents ((field, scope) :: rest) ↔
      (∃ rows, m.fetched s parents r scope = .ok rows) ∧ m.Fetches s parents rest := by
  rw [Fetches, List.forall_mem_cons]
  simp only [known, Option.some.injEq, forall_eq']
  rfl

end

theorem distinct_supplies (distinct : tree.Distinct) (p : Record) :
    Entries.Distinct (m.supplies s parents tree p) := by
  have names : (Entries.names (m.supplies s parents tree p)).Sublist tree.names := by
    clear distinct
    induction tree with
    | nil => exact .slnil
    | cons e rest ih =>
      rw [supplies, List.filterMap_cons]
      cases m.schema.relation? m.table e.1 with
      | none => exact ih.cons e.1
      | some r => exact ih.cons_cons e.1
  exact names.nodup distinct

theorem reads_relatedRows (m : Model) (r : Relation) (scope : Scope) (parents : List Record) :
    m.handle.Asks Job.Selects (m.relatedRows r scope parents) := by
  rw [relatedRows]
  split
  · exact .pure _
  · exact (m.related r.target).reads_findMany _

theorem reads_attachScope (m : Model) (field : String) (r : Relation) (scope : Scope)
    (parents : List Record) :
    m.handle.Asks Job.Selects (m.attachScope field r scope parents) := by
  rw [attachScope_eq]
  exact .bind (m.reads_relatedRows ..) fun _ => .pure _

theorem run_attachScope_given {g : Record → Record} {field : String} {r : Relation} {scope : Scope}
    (hb : s.behind = []) (follows : s.Follows (· = ·) t)
    (same : ∀ p ∈ parents, Entries.get? (g p) r.parentKey = Entries.get? p r.parentKey) :
    (t.run (m.attachScope field r scope (parents.map g)).run).1 =
      (m.fetched s parents r scope).map fun rows => parents.map fun p =>
        Entries.set (g p) field (r.attached scope.page scope.select (r.group rows p)) := by
  have hrows : (t.run (m.relatedRows r scope (parents.map g)).run).1 =
      m.fetched s parents r scope := by
    have : m.relatedRows r scope (parents.map g) = m.relatedRows r scope parents := by
      rw [relatedRows, relatedRows, Record.distinctValues_map same]
    rw [this, fetched, follows.run_eq (m.reads_relatedRows ..) hb]
  rw [attachScope_eq, Session.run_op_map, hrows]
  cases m.fetched s parents r scope with
  | error e => rfl
  | ok rows =>
    simp only [Except.map, List.map_map]
    refine congrArg Except.ok (List.map_congr_left fun p hp => ?_)
    have hgroup : r.group rows (g p) = r.group rows p := by
      rw [Relation.group, Relation.group, Record.keyOf?, Record.keyOf?, same p hp]
    rw [Function.comp_apply, hgroup]

theorem run_attach_iff (hb : s.behind = []) (distinct : rest.Distinct) (apart : m.Apart rest)
    (follows : s.Follows (· = ·) t) {g : Record → Record}
    (same : ∀ p ∈ parents, ∀ field r, m.Includes rest field r →
      Entries.get? (g p) r.parentKey = Entries.get? p r.parentKey) :
    (t.run (m.attach rest (parents.map g)).run).1 = .ok rows ↔
      m.Fetches s parents rest ∧
        rows = parents.map fun p => Entries.extend (g p) (m.supplies s parents rest p) := by
  induction rest generalizing t g with
  | nil =>
    rw [attach]
    constructor
    · intro h
      exact ⟨fetches_nil, (Except.ok.inj h).symm⟩
    · rintro ⟨-, rfl⟩
      rfl
  | cons e rest ih =>
    obtain ⟨field, scope⟩ := e
    obtain ⟨hfresh, hrest⟩ := List.nodup_cons.mp distinct
    have same' : ∀ p ∈ parents, ∀ field' r, m.Includes rest field' r →
        Entries.get? (g p) r.parentKey = Entries.get? p r.parentKey :=
      fun p hp field' r h => same p hp field' r ⟨List.mem_cons_of_mem _ h.1, h.2⟩
    rw [attach]
    cases known : m.schema.relation? m.table field with
    | none =>
      rw [fetches_of_unknown known, supplies_of_unknown known]
      exact ih hrest apart.of_cons follows same'
    | some r =>
      have hfield : m.Includes ((field, scope) :: rest) field r := ⟨List.mem_cons_self, known⟩
      have hscope : (t.run (m.attachScope field r scope (parents.map g)).run).1 =
          (m.fetched s parents r scope).map fun rows => parents.map fun p =>
            Entries.set (g p) field (r.attached scope.page scope.select (r.group rows p)) :=
        run_attachScope_given hb follows fun p hp => same p hp field r hfield
      have hleft := Session.follows_reads (m.reads_attachScope field r scope (parents.map g))
        follows.behind
      rw [fetches_of_known known, Session.run_op_bind]
      rcases hrun : t.run (m.attachScope field r scope (parents.map g)).run with ⟨result, u⟩
      rw [hrun] at hscope hleft
      cases hfetched : m.fetched s parents r scope with
      | error f =>
        rw [hfetched] at hscope
        obtain rfl : result = .error f := hscope
        simp
      | ok rows' =>
        rw [hfetched] at hscope
        obtain rfl : result = .ok (parents.map fun p => Entries.set (g p) field
          (r.attached scope.page scope.select (r.group rows' p))) := hscope
        have same'' : ∀ p ∈ parents, ∀ field' r', m.Includes rest field' r' →
            Entries.get? (Entries.set (g p) field
              (r.attached scope.page scope.select (r.group rows' p))) r'.parentKey =
            Entries.get? p r'.parentKey := fun p hp field' r' h' =>
          (apart.get?_set hfresh known h' _ _).trans (same' p hp field' r' h')
        have follows' : s.Follows (· = ·) u := follows.trans Eq.trans hleft
        have hrows := ih hrest apart.of_cons follows' same''
        simp only [supplies_of_known known hfetched]
        have found : ∃ rows, (.ok rows' : Except Failure (List Record)) = .ok rows := ⟨rows', rfl⟩
        rw [and_iff_right found]
        exact hrows

/-- In whichever order the relations of a tree are attached, each field gets the same value. -/
theorem attach_of_perm (hb : s.behind = []) (distinct : tree.Distinct) (apart : m.Apart tree)
    (perm : tree.Perm tree') (h : (s.run (m.attach tree parents).run).1 = .ok rows) :
    ∃ rows', (s.run (m.attach tree' parents).run).1 = .ok rows' ∧
      List.Forall₂ (fun q q' : Record => ∀ field, Entries.get? q field = Entries.get? q' field)
        rows rows' := by
  have follows : s.Follows (· = ·) s := .refl (fun _ => rfl) hb
  have distinct' : tree'.Distinct := (perm.map Prod.fst).nodup distinct
  have given {tree : Include} (distinct : tree.Distinct) (apart : m.Apart tree)
      (rows : List Record) : (s.run (m.attach tree (parents.map id)).run).1 = .ok rows ↔
        m.Fetches s parents tree ∧
          rows = parents.map fun p => Entries.extend p (m.supplies s parents tree p) :=
    run_attach_iff hb distinct apart follows fun _ _ _ _ _ => rfl
  rw [List.map_id] at given
  obtain ⟨fetches, rfl⟩ := (given distinct apart rows).mp h
  refine ⟨_, (given distinct' (apart.of_perm perm) _).mpr ⟨fun e he => ?_, rfl⟩, ?_⟩
  · exact fetches e (perm.mem_iff.mpr he)
  · refine List.forall₂_map_left_iff.mpr (List.forall₂_map_right_iff.mpr ?_)
    refine List.forall₂_same.mpr fun p _ field => ?_
    exact Entries.get?_extend_of_perm (perm.filterMap _) (distinct_supplies distinct p) p field

end Model

/-! ### Every level -/

namespace Include

/-- The same relations with the same scopes, in another order at any level. -/
inductive Reordered : Include → Include → Prop
  | nil : Reordered [] []
  | insert {field : String} {scope : Scope} {nested rest before after : Include}
      (below : Reordered scope.nested nested) (others : Reordered rest (before ++ after)) :
      Reordered ((field, scope) :: rest) (before ++ (field, { scope with nested }) :: after)

theorem depth_middle (before after : Include) (e : String × Scope) :
    depth (before ++ e :: after) = depth (e :: (before ++ after)) := by
  induction before with
  | nil => rfl
  | cons e' before ih =>
    obtain ⟨_, scope⟩ := e
    obtain ⟨_, scope'⟩ := e'
    simp only [List.cons_append, depth] at ih ⊢
    rw [ih]
    exact Nat.max_left_comm ..

namespace Reordered

variable {tree tree' : Include}

theorem depth_eq (h : tree.Reordered tree') : depth tree' = depth tree := by
  induction h with
  | nil => rfl
  | @insert field scope nested rest before after _ _ ihbelow ihothers =>
    have hscope (scope : Scope) : scopeDepth scope = 1 + depth scope.nested := by
      cases scope
      rfl
    rw [depth_middle, depth, depth, ihothers, hscope, hscope scope, ihbelow]

theorem names_perm (h : tree.Reordered tree') : tree.names.Perm tree'.names := by
  induction h with
  | nil => exact .refl _
  | @insert field scope nested rest before after _ _ _ ih =>
    refine (ih.cons field).trans ?_
    have := @List.perm_middle _ (field, { scope with nested }) before after
    exact (this.map Prod.fst).symm

end Reordered

end Include

namespace Model

variable {m : Model} {s t : Session} {tree tree' : Include} {parents others rows : List Record}

/-- At no level a relation is attached under the field of another one's key. -/
inductive ApartThroughout : Model → Include → Prop
  | intro {m : Model} {tree : Include} (distinct : tree.Distinct) (apart : m.Apart tree)
      (below : ∀ ⦃field scope r⦄, (field, scope) ∈ tree →
        m.schema.relation? m.table field = some r →
        ApartThroughout (m.related r.target) scope.nested) :
      ApartThroughout m tree

theorem Apart.of_names (names : tree.names.Perm tree'.names) (apart : m.Apart tree) :
    m.Apart tree' := by
  have includes {field : String} {r : Relation} (h : m.Includes tree' field r) :
      m.Includes tree field r := ⟨names.mem_iff.mpr h.1, h.2⟩
  exact fun _ _ _ _ h h' => apart (includes h) (includes h')

/-- Whatever a tree attaches to records, another one attaches up to the order of fields. -/
def AttachesAlike (m : Model) (tree tree' : Include) : Prop :=
  ∀ ⦃s : Session⦄ ⦃ps rows : List Record⦄, s.behind = [] →
    (s.run (m.attach tree ps).run).1 = .ok rows →
    ∃ rows', (s.run (m.attach tree' ps).run).1 = .ok rows' ∧ List.Forall₂ Record.Same rows rows'

/-- Reading with relations in another order changes no more than the order of fields. -/
theorem run_findMany_reordered {find : Find} {nested : Include} (plain : find.select = none)
    (reordered : Include.Reordered find.attach nested) (below : m.AttachesAlike find.attach nested)
    (hb : s.behind = []) (h : (s.run (m.findMany find).run).1 = .ok rows) :
    ∃ rows', (s.run (m.findMany { find with attach := nested }).run).1 = .ok rows' ∧
      List.Forall₂ Record.Same rows rows' := by
  obtain ⟨_, hcheck, hselected⟩ := Session.run_check_ok (Prod.ext h rfl)
  obtain ⟨selected, u, hselect, hcomplete⟩ := Session.run_op_bind_ok hselected
  obtain ⟨attached, _, hattach, hnarrow⟩ := Session.run_op_bind_ok hcomplete
  obtain ⟨rfl, -⟩ := Session.run_pure_ok hnarrow
  have hbu : u.behind = [] := by
    have := (Session.follows_reads (m.reads_select find.filter find.order find.page) hb).behind
    rwa [hselect] at this
  obtain ⟨rows', hrows', same⟩ := below hbu (congrArg Prod.fst hattach)
  have hcheck' : m.checkFind { find with attach := nested } = .ok () := by
    rwa [checkFind, Include.checkDepth, reordered.depth_eq]
  refine ⟨rows', ?_, by rwa [plain]⟩
  rw [findMany, Session.run_check hcheck', Session.run_op_bind_of_ok (congrArg Prod.fst hselect),
    hselect, complete, Session.run_op_bind_of_ok hrows', plain]
  rfl

theorem fetched_of_reordered {r : Relation} {scope : Scope} {nested : Include}
    (reordered : Include.Reordered scope.nested nested)
    (below : (m.related r.target).AttachesAlike scope.nested nested)
    (hb : s.behind = []) (same : List.Forall₂ Record.Same parents others)
    (h : m.fetched s parents r scope = .ok rows) :
    ∃ rows', m.fetched s others r { scope with nested } = .ok rows' ∧
      List.Forall₂ Record.Same rows rows' := by
  rw [fetched, relatedRows] at h ⊢
  rw [← Record.Same.distinctValues_eq same]
  generalize Record.distinctValues r.parentKey [] parents = keys at h ⊢
  by_cases hkeys : keys.isEmpty = true
  · rw [if_pos hkeys] at h ⊢
    cases h
    exact ⟨[], rfl, .nil⟩
  · rw [if_neg hkeys] at h ⊢
    have plain : (reading r scope keys).select = none := rfl
    have read := run_findMany_reordered plain reordered below hb h
    exact read

theorem run_attachScope_reordered {field : String} {r : Relation} {scope : Scope}
    {nested : Include} (reordered : Include.Reordered scope.nested nested)
    (below : (m.related r.target).AttachesAlike scope.nested nested)
    (hb : s.behind = []) (same : List.Forall₂ Record.Same parents others)
    (h : (s.run (m.attachScope field r scope parents).run).1 = .ok rows) :
    ∃ rows', (s.run (m.attachScope field r { scope with nested } others).run).1 = .ok rows' ∧
      List.Forall₂ Record.Same rows rows' := by
  rw [attachScope_eq, Session.run_op_map] at h
  obtain ⟨fetched, hfetched, rfl⟩ := map_eq_ok.mp h
  obtain ⟨fetched', hfetched', hsame⟩ := fetched_of_reordered reordered below hb same hfetched
  rw [attachScope_eq, Session.run_op_map]
  refine ⟨_, congrArg (Except.map _) hfetched', ?_⟩
  refine List.forall₂_map_left_iff.mpr (List.forall₂_map_right_iff.mpr (same.imp fun p q hpq => ?_))
  exact hpq.set field (r.attached_same scope.page scope.select (r.group_same hsame hpq))

theorem attach_cons_alike {scope' : Scope} (hb : s.behind = [])
    (same : List.Forall₂ Record.Same parents others)
    (h : (s.run (m.attach ((field, scope) :: rest) parents).run).1 = .ok rows)
    (first : ∀ r, m.schema.relation? m.table field = some r → ∀ ps,
      (s.run (m.attachScope field r scope parents).run).1 = .ok ps →
      ∃ qs, (s.run (m.attachScope field r scope' others).run).1 = .ok qs ∧
        List.Forall₂ Record.Same ps qs)
    (further : ∀ (u : Session) (ps qs rows : List Record), u.behind = [] →
      List.Forall₂ Record.Same ps qs → (u.run (m.attach rest ps).run).1 = .ok rows →
      ∃ rows', (u.run (m.attach rest' qs).run).1 = .ok rows' ∧
        List.Forall₂ Record.Same rows rows') :
    ∃ rows', (s.run (m.attach ((field, scope') :: rest') others).run).1 = .ok rows' ∧
      List.Forall₂ Record.Same rows rows' := by
  rw [attach] at h ⊢
  cases known : m.schema.relation? m.table field with
  | none =>
    rw [known] at h
    exact further s parents others rows hb same h
  | some r =>
    rw [known] at h
    obtain ⟨ps, u, hscope, hrest⟩ := Session.run_op_bind_ok (Prod.ext h rfl)
    obtain ⟨qs, hqs, hsame⟩ := first r known ps (congrArg Prod.fst hscope)
    have hu := Session.follows_reads (m.reads_attachScope field r scope parents) hb
    have hv := Session.follows_reads (m.reads_attachScope field r scope' others) hb
    rw [hscope] at hu
    obtain ⟨rows', hrows', hsame'⟩ :=
      further u ps qs rows hu.behind hsame (congrArg Prod.fst hrest)
    refine ⟨rows', ?_, hsame'⟩
    have back : u.Follows (· = ·) s := hu.symm Eq.symm hb
    simp only [Session.run_op_bind_of_ok hqs]
    rw [← hrows']
    exact Session.Follows.run_eq (m.reads_attach ..) hu.behind (back.trans Eq.trans hv)

/-- In whichever order relations are attached at any level, each field gets the same value, up to
the order of the fields of the records in it. -/
theorem attach_of_reordered (reordered : tree.Reordered tree') (apart : m.ApartThroughout tree)
    (hb : s.behind = []) (same : List.Forall₂ Record.Same parents others)
    (h : (s.run (m.attach tree parents).run).1 = .ok rows) :
    ∃ rows', (s.run (m.attach tree' others).run).1 = .ok rows' ∧
      List.Forall₂ Record.Same rows rows' := by
  induction reordered generalizing m s parents others rows with
  | nil =>
    rw [attach] at h ⊢
    cases h
    exact ⟨others, rfl, same⟩
  | @insert field scope nested rest before after reordered rearranged ihbelow ihothers =>
    have moved : Include.Reordered ((field, scope) :: rest)
        (before ++ (field, { scope with nested }) :: after) := .insert reordered rearranged
    have names := moved.names_perm
    have perm : List.Perm (before ++ (field, { scope with nested }) :: after)
        ((field, { scope with nested }) :: (before ++ after)) := List.perm_middle
    obtain ⟨distinct, toplevel, deeper⟩ := apart
    have apartRest : m.ApartThroughout rest :=
      ⟨(List.nodup_cons.mp distinct).2, toplevel.of_cons, fun _ _ _ he => deeper (.tail _ he)⟩
    -- The relation is attached first of all, and then moved to its place.
    obtain ⟨rows', hrows', hsame⟩ : ∃ rows', (s.run (m.attach
        ((field, { scope with nested }) :: (before ++ after)) others).run).1 = .ok rows' ∧
          List.Forall₂ Record.Same rows rows' := by
      refine attach_cons_alike hb same h (fun r known ps hps => ?_) fun _ _ _ _ hb same h =>
        ihothers apartRest hb same h
      exact run_attachScope_reordered reordered
        (fun _ _ _ hb => ihbelow (deeper List.mem_cons_self known) hb
          (List.forall₂_same.mpr fun p _ => .refl p))
        hb same hps
    have names' := (perm.map Prod.fst).symm
    obtain ⟨rows'', hrows'', hget⟩ := attach_of_perm hb
      (names'.nodup_iff.mpr (names.nodup distinct)) (toplevel.of_names (names.trans names'.symm))
      perm.symm hrows'
    exact ⟨rows'', hrows'', Record.Same.all_trans_get? hsame hget⟩

/-- Attaching a tree only adds what was asked for. The records are as many as before and in the
same order; each has the relations that the tree includes and the schema knows, with lists of
records or at most one record, and is otherwise as it was. If no relation is attached under the
key of another one, and nothing was left behind that changes the store meanwhile, each field gets
the same value in whichever order the relations are attached. At lower levels the order then
changes no more than the order of the fields of the records that are attached. -/
theorem attach_only_adds (h : (s.run (m.attach tree parents).run).1 = .ok rows) :
    List.Forall₂ (m.Completes tree) parents rows ∧
      (s.behind = [] →
        (tree.Distinct → m.Apart tree → ∀ tree', tree.Perm tree' →
          ∃ rows', (s.run (m.attach tree' parents).run).1 = .ok rows' ∧
            List.Forall₂
              (fun q q' : Record => ∀ field, Entries.get? q field = Entries.get? q' field)
              rows rows') ∧
        (m.ApartThroughout tree → ∀ tree', tree.Reordered tree' →
          ∃ rows', (s.run (m.attach tree' parents).run).1 = .ok rows' ∧
            List.Forall₂ Record.Same rows rows')) := by
  refine ⟨(m.gives_attach tree parents).run h, fun hb => ⟨?_, ?_⟩⟩
  · exact fun distinct apart _ perm => attach_of_perm hb distinct apart perm h
  · intro apart _ reordered
    exact attach_of_reordered reordered apart hb (List.forall₂_same.mpr fun p _ => .refl p) h

def memberSchema : Schema :=
  { relationsOf := [("users", [("posts", ⟨.oneToMany, "posts", "userId", "id"⟩),
      ("team", ⟨.manyToOne, "teams", "teamId", "id"⟩)])] }

def memberModel : Model :=
  { table := "users", handle := {}, schema := memberSchema, depthLimit := 5 }

theorem attach_only_adds_members :
    ∃ rows rows', ((Session.ofDatabase postDatabase).run
        (memberModel.attach [("posts", postScope), ("team", {})] users).run).1 = .ok rows ∧
      List.Forall₂ (memberModel.Completes [("posts", postScope), ("team", {})]) users rows ∧
      ((Session.ofDatabase postDatabase).run
        (memberModel.attach [("team", {}), ("posts", postScope)] users).run).1 = .ok rows' ∧
      List.Forall₂ (fun q q' : Record => ∀ field, Entries.get? q field = Entries.get? q' field)
        rows rows' := by
  have hfind : (memberModel.related "posts").checkFind
      { filter := Filter.merge [.test "userId" (.among [.integer 1, .integer 2])] []
        order := [("id", .descending)] } = .ok () := by
    rw [checkFind, checkFilter, Filter.merge, List.append_nil, Filter.fields, Filter.fields]
    rfl
  have posts : memberModel.schema.relation? memberModel.table "posts" =
      some ⟨.oneToMany, "posts", "userId", "id"⟩ := rfl
  have team : memberModel.schema.relation? memberModel.table "team" =
      some ⟨.manyToOne, "teams", "teamId", "id"⟩ := rfl
  have hkeys : Record.distinctValues "id" [] users = [.integer 1, .integer 2] := rfl
  obtain ⟨rows, h⟩ : ∃ rows, ((Session.ofDatabase postDatabase).run
      (memberModel.attach [("posts", postScope), ("team", {})] users).run).1 = .ok rows := by
    simp only [attach, posts, team, postScope, attachScope, Relation.parentKey,
      Relation.targetKey, hkeys, hfind, List.isEmpty_cons, Bool.false_eq_true, if_false]
    exact ⟨_, rfl⟩
  have apart : memberModel.Apart [("posts", postScope), ("team", {})] := by
    intro field r field' r' h h' hne
    have known {field : String} {r : Relation}
        (h : memberModel.Includes [("posts", postScope), ("team", {})] field r) :
        (field = "posts" ∨ field = "team") ∧ (r.parentKey = "id" ∨ r.parentKey = "teamId") := by
      have hfield : field = "posts" ∨ field = "team" := by simpa [Entries.names] using h.1
      refine ⟨hfield, ?_⟩
      rcases hfield with rfl | rfl
      · exact .inl (Option.some.inj (posts.symm.trans h.2) ▸ rfl)
      · exact .inr (Option.some.inj (team.symm.trans h.2) ▸ rfl)
    rcases (known h).1 with rfl | rfl <;> rcases (known h').2 with hkey | hkey <;> rw [hkey] <;>
      decide
  obtain ⟨completes, order⟩ := attach_only_adds h
  obtain ⟨rows', h', same⟩ := (order rfl).1 (by decide) apart _ (.swap _ _ _)
  exact ⟨rows, rows', h, completes, h', same⟩

end Model

end Relata
