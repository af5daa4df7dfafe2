import Relata.Proofs.Query.Meaning

/-! # Filters of one shape

Filters of one shape ask the same of the same fields, with other operands: lists are as
long as each other, and what is compared with null stays so. Where the one has conditions the
other has them too, and they are written alike.
-/

namespace Relata

def Value.IsNeedle : Value → Prop
  | .text _ => True
  | .integer _ => True
  | .real x => x.isFinite = true
  | _ => False

/-- Records with the same fields in the same order, where each value can be bound if the
one in its place can. -/
def Record.SameShape (r s : Record) : Prop :=
  List.Forall₂ (fun e d => e.1 = d.1 ∧ (e.2.Bindable → d.2.Bindable)) r s

namespace Test

/-- The same operator with an operand that it takes if it takes the first one. -/
inductive SameShape : Test → Test → Prop
  | isNull : SameShape .isNull .isNull
  | compare {how : Comparison} {v w : Value}
      (nulls : how = .equal ∨ how = .different → (v = .null ↔ w = .null))
      (bindable : v.Bindable → w.Bindable) : SameShape (.compare how v) (.compare how w)
  | among {vs ws : List Value}
      (bindable : List.Forall₂ (fun v w => v.Bindable → w.Bindable) vs ws) :
      SameShape (.among vs) (.among ws)
  | outside {vs ws : List Value}
      (bindable : List.Forall₂ (fun v w => v.Bindable → w.Bindable) vs ws) :
      SameShape (.outside vs) (.outside ws)
  | like {place : Placement} {v w : Value} (needle : v.IsNeedle → w.IsNeedle) :
      SameShape (.like place v) (.like place w)

variable {field : String}

theorem needle_isOk_iff (v : Value) : (∃ s, needle field v = .ok s) ↔ v.IsNeedle := by
  cases v with
  | real x => by_cases h : x.isFinite = true <;> simp [needle, Value.IsNeedle, h]
  | _ => simp [needle, Value.IsNeedle]

theorem scalars_sameShape {vs ws : List Value} {ss : List Scalar}
    (h : List.Forall₂ (fun v w => v.Bindable → w.Bindable) vs ws)
    (hss : scalars field vs = .ok ss) :
    ∃ ts, scalars field ws = .ok ts ∧ ts.length = ss.length := by
  induction h generalizing ss with
  | nil => exact ⟨ss, hss, rfl⟩
  | cons hv _ ih =>
    obtain ⟨s, hs, hss⟩ := bind_eq_ok.mp hss
    obtain ⟨ss, hrest, hss⟩ := bind_eq_ok.mp hss
    cases hss
    obtain ⟨t, ht⟩ := (Value.toScalar_isOk_iff field _).mpr
      (hv ((Value.toScalar_isOk_iff field _).mp ⟨s, hs⟩))
    obtain ⟨ts, hts, hlength⟩ := ih hrest
    exact ⟨t :: ts, bind_eq_ok.mpr ⟨t, ht, bind_eq_ok.mpr ⟨ts, hts, rfl⟩⟩,
      congrArg (· + 1) hlength⟩

theorem SameShape.condition {t u : Test} {c : Condition} (h : SameShape t u)
    (hc : t.condition field = .ok c) :
    ∃ d, u.condition field = .ok d ∧ d.text = c.text ∧ d.operands.length = c.operands.length := by
  cases h with
  | isNull => exact ⟨c, hc, rfl, rfl⟩
  | @compare how v w nulls bindable =>
    by_cases hn : (how = .equal ∨ how = .different) ∧ v = .null
    · obtain ⟨hhow, hv⟩ := hn
      rw [hv] at hc
      exact ⟨c, (nulls hhow).mp hv ▸ hc, rfl, rfl⟩
    · have hm : ¬((how = .equal ∨ how = .different) ∧ w = .null) := fun h =>
        hn ⟨h.1, (nulls h.1).mpr h.2⟩
      rw [condition_compare (fun he hv => hn ⟨.inl he, hv⟩) fun hd hv => hn ⟨.inr hd, hv⟩] at hc
      rw [condition_compare (fun he hw => hm ⟨.inl he, hw⟩) fun hd hw => hm ⟨.inr hd, hw⟩]
      obtain ⟨s, hs, rfl⟩ := map_eq_ok.mp hc
      obtain ⟨r, hr⟩ := (Value.toScalar_isOk_iff field w).mpr
        (bindable ((Value.toScalar_isOk_iff field v).mp ⟨s, hs⟩))
      exact ⟨.compare field how r, map_eq_ok.mpr ⟨r, hr, rfl⟩, rfl, rfl⟩
  | among bindable =>
    cases bindable with
    | nil => exact ⟨c, hc, rfl, rfl⟩
    | cons hv hvs =>
      rw [condition_among (List.cons_ne_nil _ _)] at hc
      obtain ⟨ss, hss, rfl⟩ := map_eq_ok.mp hc
      obtain ⟨ts, hts, hlength⟩ := scalars_sameShape (.cons hv hvs) hss
      rw [condition_among (List.cons_ne_nil _ _)]
      exact ⟨.among field ts, map_eq_ok.mpr ⟨ts, hts, rfl⟩,
        by rw [Condition.text, Condition.text, hlength], hlength⟩
  | outside bindable =>
    cases bindable with
    | nil => exact ⟨c, hc, rfl, rfl⟩
    | cons hv hvs =>
      rw [condition_outside (List.cons_ne_nil _ _)] at hc
      obtain ⟨ss, hss, rfl⟩ := map_eq_ok.mp hc
      obtain ⟨ts, hts, hlength⟩ := scalars_sameShape (.cons hv hvs) hss
      rw [condition_outside (List.cons_ne_nil _ _)]
      exact ⟨.outside field ts, map_eq_ok.mpr ⟨ts, hts, rfl⟩,
        by rw [Condition.text, Condition.text, hlength], hlength⟩
  | @like place v w needle =>
    obtain ⟨s, hs, rfl⟩ := map_eq_ok.mp hc
    obtain ⟨r, hr⟩ := (needle_isOk_iff w).mpr (needle ((needle_isOk_iff v).mp ⟨s, hs⟩))
    exact ⟨.like field (pattern place r), map_eq_ok.mpr ⟨r, hr, rfl⟩, rfl, rfl⟩

end Test

namespace Filter

/-- The same tests of the same fields in the same groups, up to operands. -/
inductive SameShape : Filter → Filter → Prop
  | nil : SameShape [] []
  | test {field : String} {t u : Test} {nodes others : Filter} (test : t.SameShape u)
      (rest : SameShape nodes others) : SameShape (.test field t :: nodes) (.test field u :: others)
  | group {c : Connective} {xs ys : List Filter} {nodes others : Filter}
      (length : xs.length = ys.length) (children : ∀ p ∈ xs.zip ys, SameShape p.1 p.2)
      (rest : SameShape nodes others) : SameShape (.group c xs :: nodes) (.group c ys :: others)

theorem conditions_cons_test (plain : Text.PlainName field.toList) {t : Test} {nodes : Filter}
    {c : Condition} {cs : List Condition} (hc : t.condition field = .ok c)
    (hcs : conditions nodes = .ok cs) : conditions (.test field t :: nodes) = .ok (c :: cs) := by
  rw [conditions, nodeCondition?, checkedName, if_pos (Text.isPlainName_iff.mpr plain)]
  exact bind_eq_ok.mpr ⟨some c, bind_eq_ok.mpr ⟨field, rfl, bind_eq_ok.mpr ⟨c, hc, rfl⟩⟩,
    bind_eq_ok.mpr ⟨cs, hcs, rfl⟩⟩

theorem conditions_cons_group {c : Connective} {children : List Filter} {nodes : Filter}
    {ps : List (List Condition)} {cs : List Condition} (hps : parts children = .ok ps)
    (hcs : conditions nodes = .ok cs) :
    conditions (.group c children :: nodes) =
      .ok ((if ps.isEmpty then [] else [.group c ps]) ++ cs) := by
  rw [conditions, nodeCondition?]
  refine bind_eq_ok.mpr ⟨_, bind_eq_ok.mpr ⟨ps, hps, rfl⟩, bind_eq_ok.mpr ⟨cs, hcs, ?_⟩⟩
  split <;> rfl

/-- Filters of one shape have conditions that are written alike. -/
theorem SameShape.conditions {f g : Filter} {cs : List Condition} (h : SameShape f g)
    (hf : Filter.conditions f = .ok cs) :
    ∃ ds, Filter.conditions g = .ok ds ∧ Condition.texts ds = Condition.texts cs ∧
      (Condition.operandsOfAll ds).length = (Condition.operandsOfAll cs).length := by
  induction h generalizing cs with
  | nil => exact ⟨cs, hf, rfl, rfl⟩
  | test test _ rest =>
    obtain ⟨plain, c, cs, hc, hcs, rfl⟩ := conditions_test hf
    obtain ⟨d, hd, htext, hlength⟩ := test.condition hc
    obtain ⟨ds, hds, htexts, hlengths⟩ := rest hcs
    refine ⟨d :: ds, conditions_cons_test plain hd hds, congrArg₂ List.cons htext htexts, ?_⟩
    rw [Condition.operandsOfAll, List.length_append, hlength, hlengths, ← List.length_append,
      Condition.operandsOfAll]
  | @group c xs ys nodes others length same _ children rest =>
    obtain ⟨ps, cs, hps, hcs, rfl⟩ := conditions_group hf
    have hparts : ∃ qs, parts ys = .ok qs ∧ Condition.partTexts qs = Condition.partTexts ps ∧
        (Condition.operandsOfParts qs).length = (Condition.operandsOfParts ps).length := by
      clear rest hf same
      induction xs generalizing ys ps with
      | nil =>
        rw [List.length_nil, eq_comm, List.length_eq_zero_iff] at length
        exact ⟨ps, length ▸ hps, rfl, rfl⟩
      | cons x xs ih =>
        obtain ⟨y, ys, rfl⟩ := List.exists_cons_of_length_eq_add_one length.symm
        obtain ⟨hx, hxs⟩ := List.forall_mem_cons.mp children
        obtain ⟨part, more, hpart, hmore, rfl⟩ := parts_cons hps
        obtain ⟨part', hpart', htexts, hlengths⟩ := hx hpart
        obtain ⟨more', hmore', hmtexts, hmlengths⟩ := ih (Nat.succ.inj length) hxs more hmore
        have hempty : part'.isEmpty = part.isEmpty := by
          rw [← Condition.isEmpty_texts, htexts, Condition.isEmpty_texts]
        refine ⟨_, bind_eq_ok.mpr ⟨part', hpart', bind_eq_ok.mpr ⟨more', hmore', rfl⟩⟩, ?_⟩
        rw [hempty]
        split
        · exact ⟨hmtexts, hmlengths⟩
        · rw [Condition.partTexts, Condition.partTexts, htexts, hmtexts, Condition.operandsOfParts,
            Condition.operandsOfParts, List.length_append, List.length_append, hlengths, hmlengths]
          exact ⟨rfl, rfl⟩
    obtain ⟨qs, hqs, hqtexts, hqlengths⟩ := hparts
    obtain ⟨ds, hds, htexts, hlengths⟩ := rest hcs
    have hempty : qs.isEmpty = ps.isEmpty := by
      rw [← Condition.isEmpty_partTexts, hqtexts, Condition.isEmpty_partTexts]
    refine ⟨_, conditions_cons_group hqs hds, ?_⟩
    rw [hempty]
    split
    · exact ⟨htexts, hlengths⟩
    · simp only [List.singleton_append, Condition.texts, Condition.text, hqtexts, htexts,
        Condition.operandsOfAll, Condition.operands, List.length_append, hqlengths, hlengths,
        and_self]

end Filter

end Relata
