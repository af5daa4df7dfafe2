import Relata.Proofs.Result
import Relata.Proofs.Sql.Reading

/-! # What filters mean

A filter says by its structure when it holds of a row: all nodes of a filter hold
together, and a group joins those of its children that ask anything at all. The
conditions of a filter, and the text they are written as, say the same.
-/

namespace Relata

open Text

namespace Test

def compareTruth (f : Frame) (row : Row) (field : String) (how : Comparison) (v : Value) :
    Truth :=
  match v.toScalar field with
  | .ok s => how.truth (f.scalar row field) ((f.affinity field).operand s)
  | .error _ => none

def amongTruth (f : Frame) (row : Row) (field : String) (vs : List Value) : Truth :=
  Truth.any (vs.map (compareTruth f row field .equal))

/-- The truth of a test of a field. Equal to null is null, and different from null is not. -/
def truth (f : Frame) (row : Row) (field : String) : Test → Truth
  | .isNull => some (f.scalar row field).isNull
  | .compare .equal .null => some (f.scalar row field).isNull
  | .compare .different .null => some (!(f.scalar row field).isNull)
  | .compare how v => compareTruth f row field how v
  | .among vs => amongTruth f row field vs
  | .outside vs => (amongTruth f row field vs).not
  | .like place v =>
    match needle field v with
    | .ok s => Pattern.truth (pattern place s) (f.scalar row field)
    | .error _ => none

theorem amongTruth_scalars {f : Frame} {row : Row} {field : String} {vs : List Value}
    {ss : List Scalar} (h : scalars field vs = .ok ss) :
    Condition.amongTruth (f.affinity field) (f.scalar row field) ss =
      amongTruth f row field vs := by
  induction vs generalizing ss with
  | nil =>
    cases h
    rfl
  | cons v vs ih =>
    obtain ⟨s, hs, h⟩ := bind_eq_ok.mp h
    obtain ⟨ss, hss, h⟩ := bind_eq_ok.mp h
    cases h
    have hv : compareTruth f row field .equal v =
        Comparison.truth .equal (f.scalar row field) ((f.affinity field).operand s) := by
      rw [compareTruth, hs]
    exact congrArg₂ Truth.or hv.symm (ih hss)

section

variable {field : String}

theorem condition_compare {how : Comparison} {v : Value} (equal : how = .equal → v ≠ .null)
    (different : how = .different → v ≠ .null) :
    condition field (.compare how v) = (v.toScalar field).map (.compare field how) := by
  rw [condition]
  · exact equal
  · exact different

theorem condition_equal {v : Value} (present : v.isNull = false) {c : Condition}
    (h : condition field (.compare .equal v) = .ok c) :
    ∃ s, v.toScalar field = .ok s ∧ c = .compare field .equal s := by
  have hne : v ≠ .null := by
    rintro rfl
    cases present
  rw [condition_compare (fun _ => hne) fun _ => hne] at h
  obtain ⟨s, hs, rfl⟩ := map_eq_ok.mp h
  exact ⟨s, hs, rfl⟩

variable {vs : List Value} (some : vs ≠ [])

include some

theorem condition_among : condition field (.among vs) = (scalars field vs).map (.among field) := by
  rw [condition]
  exact some

theorem condition_outside :
    condition field (.outside vs) = (scalars field vs).map (.outside field) := by
  rw [condition]
  exact some

end

theorem truth_condition {f : Frame} {row : Row} {field : String} {t : Test} {c : Condition}
    (h : t.condition field = .ok c) : c.truth f row = t.truth f row field := by
  fun_cases Test.condition field t with
  | case1 | case2 | case3 | case5 | case6 => cases h; rfl
  | case4 how v hnull hsome =>
    rw [condition_compare hnull hsome] at h
    obtain ⟨s, hs, rfl⟩ := map_eq_ok.mp h
    rw [truth.eq_4 _ _ _ _ _ hnull hsome, compareTruth, hs]
    rfl
  | case7 vs some =>
    rw [condition_among some] at h
    obtain ⟨ss, hss, rfl⟩ := map_eq_ok.mp h
    exact amongTruth_scalars hss
  | case8 vs some =>
    rw [condition_outside some] at h
    obtain ⟨ss, hss, rfl⟩ := map_eq_ok.mp h
    exact congrArg Truth.not (amongTruth_scalars hss)
  | case9 place v =>
    obtain ⟨s, hs, rfl⟩ := map_eq_ok.mp h
    rw [truth, hs]
    rfl

theorem ne_nil_of_scalars {field : String} {vs : List Value} {ss : List Scalar} (some : vs ≠ [])
    (h : scalars field vs = .ok ss) : ss ≠ [] := by
  obtain ⟨v, vs, rfl⟩ := List.exists_cons_of_ne_nil some
  obtain ⟨s, _, h⟩ := bind_eq_ok.mp h
  obtain ⟨ss, _, h⟩ := bind_eq_ok.mp h
  cases h
  exact List.cons_ne_nil s ss

theorem written_condition {isName : String → Prop} {field : String} {t : Test} {c : Condition}
    (name : isName field) (h : t.condition field = .ok c) : c.Written isName := by
  fun_cases Test.condition field t with
  | case1 | case2 => cases h; exact .isNull name
  | case3 => cases h; exact .notNull name
  | case5 | case6 => cases h; exact .constant _
  | case4 how v hnull hsome =>
    rw [condition_compare hnull hsome] at h
    obtain ⟨s, _, rfl⟩ := map_eq_ok.mp h
    exact .compare name
  | case7 vs some =>
    rw [condition_among some] at h
    obtain ⟨ss, hss, rfl⟩ := map_eq_ok.mp h
    exact .among name (ne_nil_of_scalars some hss)
  | case8 vs some =>
    rw [condition_outside some] at h
    obtain ⟨ss, hss, rfl⟩ := map_eq_ok.mp h
    exact .outside name (ne_nil_of_scalars some hss)
  | case9 place v =>
    obtain ⟨s, _, rfl⟩ := map_eq_ok.mp h
    exact .like name

theorem columns_condition {field : String} {t : Test} {c : Condition}
    (h : t.condition field = .ok c) : ∀ name ∈ c.columns, name = field := by
  fun_cases Test.condition field t with
  | case1 | case2 | case3 | case5 | case6 => cases h; simp [Condition.columns]
  | case4 how v hnull hsome =>
    rw [condition_compare hnull hsome] at h
    obtain ⟨s, _, rfl⟩ := map_eq_ok.mp h
    simp [Condition.columns]
  | case7 vs some =>
    rw [condition_among some] at h
    obtain ⟨ss, _, rfl⟩ := map_eq_ok.mp h
    simp [Condition.columns]
  | case8 vs some =>
    rw [condition_outside some] at h
    obtain ⟨ss, _, rfl⟩ := map_eq_ok.mp h
    simp [Condition.columns]
  | case9 place v =>
    obtain ⟨s, _, rfl⟩ := map_eq_ok.mp h
    simp [Condition.columns]

end Test

/-- The truth of a group of which the children that ask anything have these truths. -/
def Connective.truth : Connective → List Truth → Truth
  | _, [] => some true
  | and, ts => Truth.all ts
  | or, ts => Truth.any ts

/-- A group of conjunctions is as true as the connective of their truths. -/
theorem Connective.truth_group (f : Frame) (row : Row) (c : Connective)
    {parts : List (List Condition)} (some : parts ≠ []) :
    Condition.truth f row (.group c parts) =
      c.truth (parts.map (Condition.conjunctionTruth f row)) := by
  obtain ⟨part, parts, rfl⟩ := List.exists_cons_of_ne_nil some
  cases c <;> rw [Condition.truth, Condition.partTruths_eq] <;> rfl

namespace Filter

mutual

def nodeDemands : Node → Bool
  | .test _ _ => true
  | .group _ children => anyDemands children

def demands : List Node → Bool
  | [] => false
  | node :: nodes => nodeDemands node || demands nodes

def anyDemands : List (List Node) → Bool
  | [] => false
  | child :: children => demands child || anyDemands children

end

mutual

/-- The truth of a node on a row. Children that ask nothing have no part in it. -/
def nodeTruth (f : Frame) (row : Row) : Node → Truth
  | .test field t => t.truth f row field
  | .group c children => c.truth (truths f row children)

def truth (f : Frame) (row : Row) : List Node → Truth
  | [] => some true
  | node :: nodes => (nodeTruth f row node).and (truth f row nodes)

def truths (f : Frame) (row : Row) : List (List Node) → List Truth
  | [] => []
  | child :: children =>
    if demands child then truth f row child :: truths f row children
    else truths f row children

end

/-- What holds of a filter whenever it holds of the children of its groups. -/
@[elab_as_elim]
theorem induction {P : Filter → Prop} (nil : P [])
    (test : ∀ field t nodes, P nodes → P (.test field t :: nodes))
    (group : ∀ c children nodes, (∀ child ∈ children, P child) → P nodes →
      P (.group c children :: nodes)) (filter : Filter) : P filter := by
  refine @Node.rec_2 (fun node => ∀ nodes, P nodes → P (node :: nodes))
    (fun children => ∀ child ∈ children, P child) P ?_ ?_ ?_ ?_ nil ?_ filter
  · exact test
  · exact fun c children hchildren nodes => group c children nodes hchildren
  · simp
  · exact fun child children hc hcs => List.forall_mem_cons.mpr ⟨hc, hcs⟩
  · exact fun node nodes hnode hnodes => hnode nodes hnodes

theorem checkedName_eq_ok {name field : String} (h : checkedName name = .ok field) :
    field = name ∧ PlainName name.toList := by
  rw [checkedName] at h
  split at h
  · next hp => exact ⟨(Except.ok.inj h).symm, isPlainName_iff.mp hp⟩
  · cases h

theorem checkedName_of_plain {name : String} (plain : PlainName name.toList) :
    checkedName name = .ok name :=
  if_pos (isPlainName_iff.mpr plain)

theorem conditions_test {field : String} {t : Test} {nodes : List Node} {cs : List Condition}
    (h : conditions (.test field t :: nodes) = .ok cs) :
    PlainName field.toList ∧ ∃ c ds, t.condition field = .ok c ∧ conditions nodes = .ok ds ∧
      cs = c :: ds := by
  rw [conditions, nodeCondition?] at h
  obtain ⟨_, hnode, h⟩ := bind_eq_ok.mp h
  obtain ⟨ds, hds, h⟩ := bind_eq_ok.mp h
  obtain ⟨_, hname, htest⟩ := bind_eq_ok.mp hnode
  obtain ⟨c, hc, hsome⟩ := bind_eq_ok.mp htest
  obtain ⟨rfl, hp⟩ := checkedName_eq_ok hname
  cases hsome
  cases h
  exact ⟨hp, c, ds, hc, hds, rfl⟩

theorem conditions_group {c : Connective} {children : List Filter} {nodes : List Node}
    {cs : List Condition} (h : conditions (.group c children :: nodes) = .ok cs) :
    ∃ ps ds, parts children = .ok ps ∧ conditions nodes = .ok ds ∧
      cs = (if ps.isEmpty then [] else [.group c ps]) ++ ds := by
  rw [conditions, nodeCondition?] at h
  obtain ⟨_, hnode, h⟩ := bind_eq_ok.mp h
  obtain ⟨ds, hds, h⟩ := bind_eq_ok.mp h
  obtain ⟨ps, hps, hsome⟩ := bind_eq_ok.mp hnode
  cases hsome
  cases h
  refine ⟨ps, ds, hps, hds, ?_⟩
  split <;> rfl

theorem parts_cons {child : Filter} {children : List Filter} {ps : List (List Condition)}
    (h : parts (child :: children) = .ok ps) :
    ∃ part rest, conditions child = .ok part ∧ parts children = .ok rest ∧
      ps = if part.isEmpty then rest else part :: rest := by
  rw [parts] at h
  obtain ⟨part, hpart, h⟩ := bind_eq_ok.mp h
  obtain ⟨rest, hrest, h⟩ := bind_eq_ok.mp h
  exact ⟨part, rest, hpart, hrest, (Except.ok.inj h).symm⟩

theorem isEmpty_conditions {filter : Filter} {cs : List Condition}
    (h : conditions filter = .ok cs) : cs.isEmpty = !demands filter := by
  induction filter using Filter.induction generalizing cs with
  | nil =>
    cases h
    rfl
  | test field t nodes =>
    obtain ⟨_, c, ds, _, _, rfl⟩ := conditions_test h
    rfl
  | group c children nodes hchildren hnodes =>
    obtain ⟨ps, ds, hps, hds, rfl⟩ := conditions_group h
    have : ps.isEmpty = !anyDemands children := by
      clear hnodes h
      induction children generalizing ps with
      | nil =>
        cases hps
        rfl
      | cons child children ih =>
        obtain ⟨hc, hcs⟩ := List.forall_mem_cons.mp hchildren
        obtain ⟨part, rest, hpart, hrest, rfl⟩ := parts_cons hps
        rw [anyDemands, Bool.not_or, ← hc hpart, ← ih hcs rest hrest]
        cases part <;> rfl
    rw [demands, nodeDemands, Bool.not_or, ← this, ← hnodes hds]
    cases ps <;> rfl

/-- The conditions of a filter are as true as the filter. -/
theorem conjunctionTruth_conditions {f : Frame} {row : Row} {filter : Filter}
    {cs : List Condition} (h : conditions filter = .ok cs) :
    Condition.conjunctionTruth f row cs = truth f row filter := by
  induction filter using Filter.induction generalizing cs with
  | nil =>
    cases h
    rfl
  | test field t nodes hnodes =>
    obtain ⟨_, c, ds, hc, hds, rfl⟩ := conditions_test h
    exact congrArg₂ Truth.and (Test.truth_condition hc) (hnodes hds)
  | group c children nodes hchildren hnodes =>
    obtain ⟨ps, ds, hps, hds, rfl⟩ := conditions_group h
    have hts : ps.map (Condition.conjunctionTruth f row) = truths f row children := by
      clear hnodes h
      induction children generalizing ps with
      | nil =>
        cases hps
        rfl
      | cons child children ih =>
        obtain ⟨hc, hcs⟩ := List.forall_mem_cons.mp hchildren
        obtain ⟨part, rest, hpart, hrest, rfl⟩ := parts_cons hps
        have hd := isEmpty_conditions hpart
        rw [truths, ← hc hpart, ← ih hcs rest hrest]
        cases hp : demands child <;> rw [hp] at hd <;> simp [hd]
    rw [Condition.conjunctionTruth_append, truth, nodeTruth, ← hts, hnodes hds]
    congr 1
    cases ps with
    | nil => rfl
    | cons part ps =>
      rw [← Connective.truth_group f row c (by simp)]
      exact Truth.all_singleton _

theorem written_conditions {isName : String → Prop} {filter : Filter} {cs : List Condition}
    (names : ∀ name ∈ fields filter, Text.PlainName name.toList → isName name)
    (h : conditions filter = .ok cs) : ∀ c ∈ cs, c.Written isName := by
  induction filter using Filter.induction generalizing cs with
  | nil =>
    cases h
    simp
  | test field t nodes hnodes =>
    obtain ⟨hp, c, ds, hc, hds, rfl⟩ := conditions_test h
    rw [fields] at names
    obtain ⟨hname, hnames⟩ := List.forall_mem_cons.mp names
    exact List.forall_mem_cons.mpr
      ⟨Test.written_condition (hname hp) hc, hnodes hnames hds⟩
  | group c children nodes hchildren hnodes =>
    obtain ⟨ps, ds, hps, hds, rfl⟩ := conditions_group h
    rw [fields, List.forall_mem_append] at names
    have hparts : ∀ part ∈ ps, part ≠ [] ∧ ∀ d ∈ part, d.Written isName := by
      have hnames := names.1
      clear hnodes h names
      induction children generalizing ps with
      | nil =>
        cases hps
        simp
      | cons child children ih =>
        obtain ⟨hc, hcs⟩ := List.forall_mem_cons.mp hchildren
        obtain ⟨part, rest, hpart, hrest, rfl⟩ := parts_cons hps
        rw [fieldsOfAll, List.forall_mem_append] at hnames
        have hothers := ih hcs rest hrest hnames.2
        cases part with
        | nil => exact hothers
        | cons d part =>
          exact List.forall_mem_cons.mpr ⟨⟨by simp, hc hnames.1 hpart⟩, hothers⟩
    refine List.forall_mem_append.mpr ⟨?_, hnodes names.2 hds⟩
    cases ps with
    | nil => simp
    | cons part ps =>
      exact List.forall_mem_singleton.mpr (.group (by simp) (fun p hp => (hparts p hp).1)
        fun p hp => (hparts p hp).2)

theorem readable_conditions {filter : Filter} {cs : List Condition}
    (names : ∀ name ∈ fields filter, Sql.isKeyword name.toList = false)
    (h : conditions filter = .ok cs) : ∀ c ∈ cs, c.Readable :=
  written_conditions (fun name hname plain => ⟨plain, names name hname⟩) h

theorem columns_conditions {filter : Filter} {cs : List Condition}
    (h : conditions filter = .ok cs) :
    ∀ name ∈ Condition.columnsOfAll cs, name ∈ fields filter := by
  induction filter using Filter.induction generalizing cs with
  | nil =>
    cases h
    simp [Condition.columnsOfAll]
  | test field t nodes hnodes =>
    obtain ⟨_, c, ds, hc, hds, rfl⟩ := conditions_test h
    intro name hname
    rw [Condition.columnsOfAll] at hname
    rw [fields]
    rcases List.mem_append.mp hname with hname | hname
    · exact List.mem_cons.mpr (.inl (Test.columns_condition hc name hname))
    · exact List.mem_cons_of_mem _ (hnodes hds name hname)
  | group c children nodes hchildren hnodes =>
    obtain ⟨ps, ds, hps, hds, rfl⟩ := conditions_group h
    have hparts : ∀ name ∈ Condition.columnsOfParts ps, name ∈ fieldsOfAll children := by
      clear hnodes h
      induction children generalizing ps with
      | nil =>
        cases hps
        simp [Condition.columnsOfParts]
      | cons child children ih =>
        obtain ⟨hc, hcs⟩ := List.forall_mem_cons.mp hchildren
        obtain ⟨part, rest, hpart, hrest, rfl⟩ := parts_cons hps
        intro name hname
        rw [fieldsOfAll, List.mem_append]
        cases part with
        | nil => exact .inr (ih hcs rest hrest name hname)
        | cons d part =>
          rcases List.mem_append.mp hname with hname | hname
          · exact .inl (hc hpart name hname)
          · exact .inr (ih hcs rest hrest name hname)
    intro name hname
    rw [fields, List.mem_append]
    cases ps with
    | nil => exact .inr (hnodes hds name hname)
    | cons part ps =>
      rcases List.mem_append.mp hname with hname | hname
      · exact .inl (hparts name hname)
      · exact .inr (hnodes hds name hname)

theorem truth_of_not_demands {filter : Filter} {cs : List Condition} (f : Frame) (row : Row)
    (h : conditions filter = .ok cs) (hd : demands filter = false) :
    truth f row filter = some true := by
  have := isEmpty_conditions h
  rw [hd, Bool.not_false, List.isEmpty_iff] at this
  rw [← conjunctionTruth_conditions h, this]
  rfl

/-- The text of a filter says on every row what the filter says, when it is read as an
expression and its marks stand for its operands from left to right. It is empty exactly if
the filter asks nothing. -/
theorem expression_conditions {filter : Filter} {cs : List Condition}
    (names : ∀ name ∈ fields filter, Sql.isKeyword name.toList = false)
    (h : conditions filter = .ok cs) :
    (demands filter = true → ∃ ds,
      Sql.Reader.expression
          ⟨Sql.tokens (Condition.conjunctionText cs), Condition.operandsOfAll cs⟩ =
        .ok (ds, ⟨[], []⟩) ∧
      ∀ f row, Truth.all (Condition.truths f row ds) = truth f row filter) ∧
    (demands filter = false → Condition.operandsOfAll cs = [] ∧
      ∀ f row, truth f row filter = some true) ∧
    (Condition.conjunctionText cs = "" ↔ demands filter = false) := by
  have readable := readable_conditions names h
  have empty := isEmpty_conditions h
  refine ⟨fun hd => ?_, fun hd => ?_, fun ht => ?_, fun hd => ?_⟩
  · rw [hd, Bool.not_true, List.isEmpty_eq_false_iff] at empty
    refine ⟨cs.map Condition.asRead, Sql.Reader.expression_conjunctionText empty readable, ?_⟩
    intro f row
    rw [Condition.all_truths, Condition.conjunctionTruth_map f row fun c _ =>
      Condition.truth_asRead f row c, conjunctionTruth_conditions h]
  · rw [hd, Bool.not_false, List.isEmpty_iff] at empty
    exact ⟨by rw [empty]; rfl, fun f row => truth_of_not_demands f row h hd⟩
  · -- A text without tokens is not one of any condition.
    have hts := Condition.tokens_conjunctionText fun c hc => (readable c hc).isPlain
    rw [ht] at hts
    by_contra hd
    rw [Bool.not_eq_false] at hd
    rw [hd, Bool.not_true, List.isEmpty_eq_false_iff] at empty
    exact Condition.conjunctionTokens_ne_nil empty hts.symm
  · rw [hd, Bool.not_false, List.isEmpty_iff] at empty
    rw [empty]
    rfl

/-- Alternatives of which one asks nothing and one asks two things. -/
theorem expression_conditions_alternatives :
    ∃ ds, Sql.Reader.expression
        ⟨Sql.tokens "a = ? AND (b IS NULL OR c LIKE ? AND d IN (?, ?))",
          [.integer 1, .text "%x%", .integer 2, .integer 3]⟩ = .ok (ds, ⟨[], []⟩) ∧
      ∀ f row, Truth.all (Condition.truths f row ds) = truth f row
        [.test "a" (.compare .equal (.integer 1)),
          .group .or [[.test "b" (.compare .equal .null)], [.group .and [[]]],
            [.test "c" (.like .anywhere (.text "x")),
              .test "d" (.among [.integer 2, .integer 3])]]] :=
  (@expression_conditions _ [.compare "a" .equal (.integer 1),
    .group .or [[.isNull "b"], [.like "c" "%x%", .among "d" [.integer 2, .integer 3]]]]
    (by simp only [fields, fieldsOfAll]; decide) rfl).1 rfl

end Filter

end Relata
