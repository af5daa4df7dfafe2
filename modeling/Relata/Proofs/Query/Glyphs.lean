import Relata.Proofs.Query.Meaning

/-! # Texts whose marks carry their operands

The text of a filter, told from the filter alone: every mark carries the operand that it
stands for. Written out it is the text of the filter's conditions, and its operands, from
left to right, are those of the tests.
-/

namespace Relata

open Text

/-- What a mark stands for. -/
inductive Operand
  /-- The value of a field. -/
  | value (field : String) (v : Value)
  /-- The pattern that finds the text of a value in a field. -/
  | pattern (field : String) (place : Placement) (v : Value)

def Operand.scalar : Operand → Except Fault Scalar
  | value field v => v.toScalar field
  | pattern field place v => (Test.needle field v).map fun s => .text (Test.pattern place s)

/-- A character of a text, or a mark and its operand. -/
inductive Glyph
  | char (c : Char)
  | mark (o : Operand)

/-- The characters of statements, apart from their marks and the minus of a limit. -/
def isPrinted (c : Char) : Bool :=
  continuesName c || " (),=<>!*".toList.contains c

def Printed (s : String) : Prop :=
  ∀ c ∈ s.toList, isPrinted c = true

instance (s : String) : Decidable (Printed s) :=
  decidable_of_iff (s.toList.all isPrinted = true) List.all_eq_true

namespace Printed

variable {s t : String}

theorem append (hs : Printed s) (ht : Printed t) : Printed (s ++ t) := by
  intro c hc
  rw [String.toList_append] at hc
  exact (List.mem_append.mp hc).elim (hs c) (ht c)

theorem name (plain : PlainName s.toList) : Printed s := by
  rw [Printed]
  generalize s.toList = cs at plain ⊢
  obtain ⟨head, tail⟩ := plain
  refine List.forall_mem_cons.mpr ⟨?_, fun d hd => ?_⟩
  · rw [startsName, Bool.or_eq_true] at head
    rw [isPrinted, continuesName]
    rcases head with head | head <;> simp [head]
  · rw [isPrinted, tail d hd, Bool.true_or]

theorem repr (n : Nat) : Printed n.repr := by
  intro c hc
  rw [Nat.repr_eq_ofList_toDigits, String.toList_ofList] at hc
  have hd : isDigit c = true := Nat.isDigit_of_mem_toDigits (by omega) (by omega) hc
  rw [isPrinted, continuesName, hd, Bool.or_true, Bool.true_or, Bool.true_or]

theorem separated {separator : String} {ss : List String} (hs : Printed separator)
    (h : ∀ s ∈ ss, Printed s) : Printed (Text.separated separator ss) := by
  fun_induction Text.separated separator ss with
  | case1 => decide
  | case2 s => exact h s (List.mem_singleton_self s)
  | case3 s rest _ ih =>
    obtain ⟨hfirst, hrest⟩ := List.forall_mem_cons.mp h
    exact (hfirst.append hs).append (ih hrest)

end Printed

namespace Glyph

def toChar : Glyph → Char
  | char c => c
  | mark _ => '?'

def operand? : Glyph → Option Operand
  | char _ => none
  | mark o => some o

def chars (gs : List Glyph) : List Char :=
  gs.map toChar

def operands (gs : List Glyph) : List Operand :=
  gs.filterMap operand?

def ofText (s : String) : List Glyph :=
  s.toList.map char

def separated (separator : String) : List (List Glyph) → List Glyph
  | [] => []
  | [gs] => gs
  | gs :: rest => gs ++ ofText separator ++ separated separator rest

/-- Glyphs whose characters, but for the marks, are those of statements. -/
def Printed (gs : List Glyph) : Prop :=
  ∀ c, char c ∈ gs → isPrinted c = true

section

variable (gs hs : List Glyph) (s t : String) (o : Operand)

@[simp] theorem chars_append : chars (gs ++ hs) = chars gs ++ chars hs :=
  List.map_append

@[simp] theorem chars_ofText : chars (ofText s) = s.toList := by
  rw [chars, ofText, List.map_map]
  exact List.map_id _

@[simp] theorem chars_mark : chars [.mark o] = ['?'] :=
  rfl

@[simp] theorem operands_mark : operands [.mark o] = [o] :=
  rfl

@[simp] theorem operands_append : operands (gs ++ hs) = operands gs ++ operands hs :=
  List.filterMap_append

@[simp] theorem operands_ofText : operands (ofText s) = [] := by
  simp [operands, ofText, operand?]

@[simp] theorem ofText_append : ofText (s ++ t) = ofText s ++ ofText t := by
  rw [ofText, String.toList_append, List.map_append, ofText, ofText]

end

/-- Texts of which each is written as the glyphs in its place are written together as the
glyphs together. -/
theorem chars_separated {separator : String} {gss : List (List Glyph)} {ss : List String}
    (h : gss.map chars = ss.map String.toList) :
    chars (separated separator gss) = (Text.separated separator ss).toList := by
  fun_induction Text.separated separator ss generalizing gss with
  | case1 =>
    rw [List.map_eq_nil_iff.mp h]
    rfl
  | case2 s =>
    obtain ⟨gs, rest, rfl, hgs, hrest⟩ := List.map_eq_cons_iff.mp h
    rw [List.map_eq_nil_iff.mp hrest]
    exact hgs
  | case3 s rest some ih =>
    obtain ⟨gs, gss, rfl, hgs, hrest⟩ := List.map_eq_cons_iff.mp h
    have : gss ≠ [] := fun hnil => some (List.map_eq_nil_iff.mp (by rw [← hrest, hnil]; rfl))
    rw [separated.eq_3 _ _ _ this, chars_append, chars_append, chars_ofText, hgs, ih hrest,
      String.toList_append, String.toList_append]

theorem operands_separated (separator : String) (gss : List (List Glyph)) :
    operands (separated separator gss) = gss.flatMap operands := by
  fun_induction separated separator gss with
  | case1 => rfl
  | case2 gs => exact (List.flatMap_singleton ..).symm
  | case3 gs rest _ ih =>
    rw [operands_append, operands_append, operands_ofText, List.append_nil, ih,
      List.flatMap_cons]

namespace Printed

variable {gs hs : List Glyph}

theorem append (hgs : Printed gs) (hhs : Printed hs) : Printed (gs ++ hs) := by
  intro c hc
  exact (List.mem_append.mp hc).elim (hgs c) (hhs c)

theorem nil : Printed [] := by
  intro c hc
  exact nomatch hc

theorem mark (o : Operand) : Printed [.mark o] := by
  intro c hc
  exact nomatch List.mem_singleton.mp hc

theorem chars (h : Printed gs) : ∀ c ∈ Glyph.chars gs, isPrinted c = true ∨ c = '?' := by
  intro c hc
  obtain ⟨g, hg, rfl⟩ := List.mem_map.mp hc
  cases g with
  | char d => exact .inl (h d hg)
  | mark o => exact .inr rfl

theorem not_mem (h : Printed gs) : Glyph.char '?' ∉ gs := by
  intro hc
  exact absurd (h '?' hc) (by decide)

theorem ofText {s : String} (h : Relata.Printed s) : Printed (Glyph.ofText s) := by
  intro c hc
  obtain ⟨d, hd, heq⟩ := List.mem_map.mp hc
  exact Glyph.char.inj heq ▸ h d hd

theorem separated {separator : String} {gss : List (List Glyph)}
    (hs : Relata.Printed separator) (h : ∀ gs ∈ gss, Printed gs) :
    Printed (Glyph.separated separator gss) := by
  fun_induction Glyph.separated separator gss with
  | case1 => exact nil
  | case2 gs => exact h gs (List.mem_singleton_self gs)
  | case3 gs rest _ ih =>
    obtain ⟨hgs, hrest⟩ := List.forall_mem_cons.mp h
    exact (hgs.append (ofText hs)).append (ih hrest)

end Printed

theorem operands_marks (os : List Operand) :
    operands (separated ", " (os.map fun o => [.mark o])) = os := by
  rw [operands_separated, List.flatMap_map]
  exact (List.map_eq_flatMap (f := id)).symm.trans (List.map_id os)

theorem chars_marks (os : List Operand) :
    chars (separated ", " (os.map fun o => [.mark o])) = (Condition.marks os.length).toList := by
  refine chars_separated ?_
  rw [List.map_map, List.map_replicate, ← List.map_const']
  rfl

theorem printed_marks (os : List Operand) :
    Printed (separated ", " (os.map fun o => [.mark o])) := by
  refine Printed.separated (by decide) fun gs hgs => ?_
  obtain ⟨o, -, rfl⟩ := List.mem_map.mp hgs
  exact .mark o

theorem count_chars {gs : List Glyph} (h : char '?' ∉ gs) :
    (chars gs).count '?' = (operands gs).length := by
  induction gs with
  | nil => rfl
  | cons g gs ih =>
    rw [List.mem_cons, not_or] at h
    cases g with
    | char c =>
      have hc : c ≠ '?' := by
        rintro rfl
        exact h.1 rfl
      exact (List.count_cons_of_ne hc).trans (ih h.2)
    | mark o => exact List.count_cons_self.trans (congrArg (· + 1) (ih h.2))

/-- A mark of a text is written for an operand, and the marks before it count it off. -/
theorem mark_of_chars {gs : List Glyph} {before after : List Char} (hgs : char '?' ∉ gs)
    (h : chars gs = before ++ '?' :: after) :
    ∃ fs o hs, gs = fs ++ .mark o :: hs ∧ chars fs = before ∧ chars hs = after ∧
      (operands gs)[before.count '?']? = some o := by
  obtain ⟨fs, rest, rfl, hbefore, hrest⟩ := List.map_eq_append_iff.mp h
  obtain ⟨g, hs, rfl, hg, hafter⟩ := List.map_eq_cons_iff.mp hrest
  rw [List.mem_append, List.mem_cons, not_or, not_or] at hgs
  cases g with
  | char c =>
    cases (hg : c = '?')
    exact absurd rfl hgs.2.1
  | mark o =>
    refine ⟨fs, o, hs, rfl, hbefore, hafter, ?_⟩
    rw [← hbefore, ← chars, count_chars hgs.1, operands_append,
      List.getElem?_append_right (Nat.le_refl _), Nat.sub_self]
    rfl

end Glyph

namespace Test

open Glyph (ofText)

def listed (field : String) (vs : List Value) : List Glyph :=
  Glyph.separated ", " (vs.map fun v => [.mark (.value field v)])

def glyphs (field : String) : Test → List Glyph
  | .isNull => ofText (field ++ " IS NULL")
  | .compare .equal .null => ofText (field ++ " IS NULL")
  | .compare .different .null => ofText (field ++ " IS NOT NULL")
  | .compare how v => ofText (field ++ " " ++ how.sign ++ " ") ++ [.mark (.value field v)]
  | .among [] => ofText "0 = 1"
  | .outside [] => ofText "1 = 1"
  | .among vs => ofText (field ++ " IN (") ++ listed field vs ++ ofText ")"
  | .outside vs => ofText (field ++ " NOT IN (") ++ listed field vs ++ ofText ")"
  | .like place v => ofText (field ++ " LIKE ") ++ [.mark (.pattern field place v)]

/-- What a test binds. Null is never bound by an equality, and a list is bound item by item. -/
def marked (field : String) : Test → List Operand
  | .isNull => []
  | .compare .equal .null => []
  | .compare .different .null => []
  | .compare _ v => [.value field v]
  | .among vs => vs.map (.value field)
  | .outside vs => vs.map (.value field)
  | .like place v => [.pattern field place v]

variable {field : String}

theorem listed_eq (vs : List Value) :
    listed field vs = Glyph.separated ", " ((vs.map (.value field)).map fun o => [.mark o]) := by
  rw [listed, List.map_map]
  rfl

theorem operands_listed (vs : List Value) :
    Glyph.operands (listed field vs) = vs.map (.value field) := by
  rw [listed_eq, Glyph.operands_marks]

theorem chars_listed (vs : List Value) :
    Glyph.chars (listed field vs) = (Condition.marks vs.length).toList := by
  rw [listed_eq, Glyph.chars_marks, List.length_map]

theorem printed_listed (vs : List Value) : Glyph.Printed (listed field vs) := by
  rw [listed_eq]
  exact Glyph.printed_marks _

theorem operands_glyphs (t : Test) : Glyph.operands (t.glyphs field) = t.marked field := by
  fun_cases Test.glyphs field t with
  | case1 | case2 | case3 | case5 | case6 => simp [marked]
  | case4 how v hnull hsome => simp [marked.eq_4 _ _ _ hnull hsome]
  | case7 vs | case8 vs => simp [marked, operands_listed]
  | case9 place v => simp [marked]

theorem printed_glyphs (plain : PlainName field.toList) (t : Test) :
    Glyph.Printed (t.glyphs field) := by
  have word {w : String} (h : Printed w) : Glyph.Printed (ofText (field ++ w)) :=
    .ofText (.append (.name plain) h)
  fun_cases Test.glyphs field t with
  | case1 | case2 | case3 => exact word (by decide)
  | case4 how v hnull hsome =>
    rw [String.append_assoc, String.append_assoc]
    exact (word (by cases how <;> decide)).append (.mark _)
  | case5 | case6 => exact .ofText (by decide)
  | case7 vs | case8 vs =>
    exact ((word (by decide)).append (printed_listed vs)).append (.ofText (by decide))
  | case9 place v => exact (word (by decide)).append (.mark _)

theorem scalars_eq_ok {vs : List Value} {ss : List Scalar} (h : scalars field vs = .ok ss) :
    vs.length = ss.length ∧ (vs.map (.value field)).map Operand.scalar = ss.map .ok := by
  induction vs generalizing ss with
  | nil =>
    cases h
    exact ⟨rfl, rfl⟩
  | cons v vs ih =>
    obtain ⟨s, hs, h⟩ := bind_eq_ok.mp h
    obtain ⟨ss, hss, h⟩ := bind_eq_ok.mp h
    cases h
    obtain ⟨hlength, hscalars⟩ := ih hss
    exact ⟨congrArg (· + 1) hlength, congrArg₂ List.cons hs hscalars⟩

theorem glyphs_condition {t : Test} {c : Condition} (h : t.condition field = .ok c) :
    Glyph.chars (t.glyphs field) = c.text.toList ∧
      (t.marked field).map Operand.scalar = c.operands.map .ok := by
  fun_cases Test.condition field t with
  | case1 | case2 | case3 | case5 | case6 =>
    cases h
    simp [glyphs, marked, Condition.text, Condition.operands]
  | case4 how v hnull hsome =>
    rw [condition_compare hnull hsome] at h
    obtain ⟨s, hs, rfl⟩ := map_eq_ok.mp h
    rw [glyphs.eq_4 _ _ _ hnull hsome, marked.eq_4 _ _ _ hnull hsome]
    exact ⟨by simp [Condition.text], by simp [Operand.scalar, hs, Condition.operands]⟩
  | case7 vs some =>
    rw [condition_among some] at h
    obtain ⟨ss, hss, rfl⟩ := map_eq_ok.mp h
    obtain ⟨hlength, hscalars⟩ := scalars_eq_ok hss
    rw [glyphs.eq_7 _ _ some]
    exact ⟨by simp [Condition.text, chars_listed, hlength], hscalars⟩
  | case8 vs some =>
    rw [condition_outside some] at h
    obtain ⟨ss, hss, rfl⟩ := map_eq_ok.mp h
    obtain ⟨hlength, hscalars⟩ := scalars_eq_ok hss
    rw [glyphs.eq_8 _ _ some]
    exact ⟨by simp [Condition.text, chars_listed, hlength], hscalars⟩
  | case9 place v =>
    obtain ⟨s, hs, rfl⟩ := map_eq_ok.mp h
    refine ⟨by simp [glyphs, Condition.text], ?_⟩
    simp [marked, Operand.scalar, hs, Condition.operands, Except.map]

end Test

namespace Filter

open Glyph (ofText)

mutual

/-- The text of a node with its marks; none for a group without parts. -/
def nodeGlyphs? : Node → Option (List Glyph)
  | .test field t => some (t.glyphs field)
  | .group c children =>
    let parts := partGlyphs children
    if parts.isEmpty then none
    else some (ofText "(" ++ Glyph.separated c.keyword parts ++ ofText ")")

def glyphs : List Node → List (List Glyph)
  | [] => []
  | node :: nodes => (nodeGlyphs? node).toList ++ glyphs nodes

def partGlyphs : List (List Node) → List (List Glyph)
  | [] => []
  | child :: children =>
    let part := glyphs child
    if part.isEmpty then partGlyphs children
    else Glyph.separated " AND " part :: partGlyphs children

end

mutual

def nodeMarked : Node → List Operand
  | .test field t => t.marked field
  | .group _ children => markedOfAll children

def marked : List Node → List Operand
  | [] => []
  | node :: nodes => nodeMarked node ++ marked nodes

def markedOfAll : List (List Node) → List Operand
  | [] => []
  | child :: children => marked child ++ markedOfAll children

end

theorem operands_glyphs (filter : Filter) :
    (glyphs filter).flatMap Glyph.operands = marked filter := by
  induction filter using Filter.induction with
  | nil => rfl
  | test field t nodes hnodes =>
    rw [glyphs, nodeGlyphs?, marked, nodeMarked, Option.toList_some, List.singleton_append,
      List.flatMap_cons, hnodes, Test.operands_glyphs]
  | group c children nodes hchildren hnodes =>
    have hparts : (partGlyphs children).flatMap Glyph.operands = markedOfAll children := by
      clear hnodes
      induction children with
      | nil => rfl
      | cons child children ih =>
        obtain ⟨hc, hcs⟩ := List.forall_mem_cons.mp hchildren
        rw [partGlyphs, markedOfAll, ← hc, ← ih hcs]
        by_cases hp : (glyphs child).isEmpty
        · simp [List.isEmpty_iff.mp hp]
        · simp [hp, Glyph.operands_separated]
    rw [glyphs, nodeGlyphs?, marked, nodeMarked, List.flatMap_append, hnodes, ← hparts]
    by_cases hp : (partGlyphs children).isEmpty
    · simp [List.isEmpty_iff.mp hp]
    · simp [hp, Glyph.operands_separated]

theorem exists_of_mem_partGlyphs {children : List Filter} {gs : List Glyph}
    (h : gs ∈ partGlyphs children) :
    ∃ child ∈ children, gs = Glyph.separated " AND " (glyphs child) := by
  induction children with
  | nil => cases h
  | cons child children ih =>
    have later (h : gs ∈ partGlyphs children) :
        ∃ d ∈ child :: children, gs = Glyph.separated " AND " (glyphs d) :=
      (ih h).imp fun _ hd => ⟨List.mem_cons_of_mem _ hd.1, hd.2⟩
    rw [partGlyphs] at h
    split at h
    · exact later h
    · rcases List.mem_cons.mp h with h | h
      · exact ⟨child, List.mem_cons_self, h⟩
      · exact later h

theorem mem_fieldsOfAll {children : List Filter} {child : Filter} (hc : child ∈ children)
    {name : String} (h : name ∈ fields child) : name ∈ fieldsOfAll children := by
  induction children with
  | nil => cases hc
  | cons first children ih =>
    rw [fieldsOfAll, List.mem_append]
    rcases List.mem_cons.mp hc with rfl | hc
    · exact .inl h
    · exact .inr (ih hc)

theorem printed_glyphs {filter : Filter} (plain : ∀ name ∈ fields filter, PlainName name.toList) :
    ∀ gs ∈ glyphs filter, Glyph.Printed gs := by
  induction filter using Filter.induction with
  | nil => simp [glyphs]
  | test field t nodes hnodes =>
    rw [fields, List.forall_mem_cons] at plain
    exact List.forall_mem_cons.mpr ⟨Test.printed_glyphs plain.1 t, hnodes plain.2⟩
  | group c children nodes hchildren hnodes =>
    rw [fields, List.forall_mem_append] at plain
    have hparts : ∀ gs ∈ partGlyphs children, Glyph.Printed gs := by
      intro gs hgs
      obtain ⟨child, hc, rfl⟩ := exists_of_mem_partGlyphs hgs
      exact .separated (by decide)
        (hchildren child hc fun name hname => plain.1 name (mem_fieldsOfAll hc hname))
    have hkeyword : Printed c.keyword := by cases c <;> decide
    rw [glyphs, nodeGlyphs?, List.forall_mem_append]
    refine ⟨?_, hnodes plain.2⟩
    by_cases hp : (partGlyphs children).isEmpty
    · simp [hp]
    · simp only [hp, Bool.false_eq_true, if_false, Option.toList_some, List.forall_mem_singleton]
      exact (Glyph.Printed.append (.ofText (by decide)) (.separated hkeyword hparts)).append
        (.ofText (by decide))

theorem plain_of_conditions {filter : Filter} {cs : List Condition}
    (h : conditions filter = .ok cs) : ∀ name ∈ fields filter, PlainName name.toList := by
  induction filter using Filter.induction generalizing cs with
  | nil => simp [fields]
  | test field t nodes hnodes =>
    obtain ⟨plain, c, ds, -, hds, rfl⟩ := conditions_test h
    rw [fields, List.forall_mem_cons]
    exact ⟨plain, hnodes hds⟩
  | group c children nodes hchildren hnodes =>
    obtain ⟨ps, ds, hps, hds, rfl⟩ := conditions_group h
    rw [fields, List.forall_mem_append]
    refine ⟨?_, hnodes hds⟩
    clear hnodes h
    induction children generalizing ps with
    | nil => simp [fieldsOfAll]
    | cons child children ih =>
      obtain ⟨hc, hcs⟩ := List.forall_mem_cons.mp hchildren
      obtain ⟨part, rest, hpart, hrest, -⟩ := parts_cons hps
      rw [fieldsOfAll, List.forall_mem_append]
      exact ⟨hc hpart, ih hcs rest hrest⟩

theorem isEmpty_of_map {α β γ : Type} {f : α → γ} {g : β → γ} {as : List α} {bs : List β}
    (h : as.map f = bs.map g) : as.isEmpty = bs.isEmpty := by
  rw [← List.isEmpty_map, h, List.isEmpty_map]

/-- The texts of a filter are written as its conditions are, and its operands are bound as
theirs are. -/
theorem glyphs_conditions {filter : Filter} {cs : List Condition}
    (h : conditions filter = .ok cs) :
    (glyphs filter).map Glyph.chars = (Condition.texts cs).map String.toList ∧
      (marked filter).map Operand.scalar = (Condition.operandsOfAll cs).map .ok := by
  induction filter using Filter.induction generalizing cs with
  | nil =>
    cases h
    exact ⟨rfl, rfl⟩
  | test field t nodes hnodes =>
    obtain ⟨_, c, ds, hc, hds, rfl⟩ := conditions_test h
    obtain ⟨htext, hscalars⟩ := Test.glyphs_condition hc
    obtain ⟨htexts, hothers⟩ := hnodes hds
    refine ⟨congrArg₂ List.cons htext htexts, ?_⟩
    rw [marked, nodeMarked, List.map_append, hscalars, hothers, ← List.map_append,
      Condition.operandsOfAll]
  | group c children nodes hchildren hnodes =>
    obtain ⟨ps, ds, hps, hds, rfl⟩ := conditions_group h
    obtain ⟨htexts, hothers⟩ := hnodes hds
    have hparts : (partGlyphs children).map Glyph.chars =
          (Condition.partTexts ps).map String.toList ∧
        (markedOfAll children).map Operand.scalar = (Condition.operandsOfParts ps).map .ok := by
      clear hnodes h
      induction children generalizing ps with
      | nil =>
        cases hps
        exact ⟨rfl, rfl⟩
      | cons child children ih =>
        obtain ⟨hc, hcs⟩ := List.forall_mem_cons.mp hchildren
        obtain ⟨part, rest, hpart, hrest, rfl⟩ := parts_cons hps
        obtain ⟨htext, hscalars⟩ := hc hpart
        obtain ⟨hrests, hall⟩ := ih hcs rest hrest
        have hempty : (glyphs child).isEmpty = part.isEmpty :=
          (isEmpty_of_map htext).trans (Condition.isEmpty_texts part)
        rw [partGlyphs, markedOfAll, List.map_append, hscalars, hall, ← List.map_append, hempty]
        cases part with
        | nil => exact ⟨hrests, rfl⟩
        | cons d part => exact ⟨congrArg₂ List.cons (Glyph.chars_separated htext) hrests, rfl⟩
    obtain ⟨hpart, hscalars⟩ := hparts
    have hempty : (partGlyphs children).isEmpty = ps.isEmpty :=
      (isEmpty_of_map hpart).trans (Condition.isEmpty_partTexts ps)
    rw [glyphs, nodeGlyphs?, marked, nodeMarked, List.map_append, List.map_append, hscalars,
      hothers, htexts, ← List.map_append, hempty]
    cases ps with
    | nil => exact ⟨rfl, rfl⟩
    | cons part ps =>
      refine ⟨?_, rfl⟩
      simp [Condition.texts, Condition.text, Glyph.chars_separated hpart]

end Filter

end Relata
