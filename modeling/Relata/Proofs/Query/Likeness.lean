import Mathlib.Data.List.Infix
import Relata.Proofs.Query.Selected

/-! # Texts that are looked for

A needle is looked for by a pattern, in which it stands as it is. A percent sign in it is matched
by any characters and an underscore by any one; a needle without them is matched by itself only,
wherever the place asks for it.
-/

namespace Relata

open Text

/-! ## Patterns of characters -/

section

variable {α : Type} {run one : α}

/-- A list is like a pattern, in which one item stands for any items and one for any single
item. -/
inductive Likens (run one : α) : List α → List α → Prop
  | nil : Likens run one [] []
  | single {p a : α} {ps as : List α} (single : p ≠ run) (same : p = one ∨ p = a) :
      Likens run one ps as → Likens run one (p :: ps) (a :: as)
  | any {ps as : List α} (skipped : List α) :
      Likens run one ps as → Likens run one (run :: ps) (skipped ++ as)

namespace Likens

theorem nil_iff {as : List α} : Likens run one [] as ↔ as = [] := by
  constructor
  · intro h
    cases h
    rfl
  · rintro rfl
    exact .nil

theorem single_iff {p : α} {ps as : List α} (single : p ≠ run) :
    Likens run one (p :: ps) as ↔
      ∃ a rest, as = a :: rest ∧ (p = one ∨ p = a) ∧ Likens run one ps rest := by
  constructor
  · intro h
    cases h with
    | single _ same h => exact ⟨_, _, rfl, same, h⟩
    | any => exact absurd rfl single
  · rintro ⟨a, rest, rfl, same, h⟩
    exact .single single same h

theorem any_iff {ps as : List α} :
    Likens run one (run :: ps) as ↔
      ∃ skipped rest, as = skipped ++ rest ∧ Likens run one ps rest := by
  constructor
  · intro h
    cases h with
    | single single => exact absurd rfl single
    | any skipped h => exact ⟨skipped, _, rfl, h⟩
  · rintro ⟨skipped, rest, rfl, h⟩
    exact .any skipped h

theorem append_iff {ps qs as : List α} :
    Likens run one (ps ++ qs) as ↔
      ∃ bs cs, as = bs ++ cs ∧ Likens run one ps bs ∧ Likens run one qs cs := by
  induction ps generalizing as with
  | nil => simp [nil_iff]
  | cons p ps ih =>
    rw [List.cons_append]
    by_cases hp : p = run
    · subst hp
      simp only [any_iff, ih]
      constructor
      · rintro ⟨skipped, _, rfl, bs, cs, rfl, hps, hqs⟩
        exact ⟨skipped ++ bs, cs, by simp, ⟨skipped, bs, rfl, hps⟩, hqs⟩
      · rintro ⟨_, cs, rfl, ⟨skipped, bs, rfl, hps⟩, hqs⟩
        exact ⟨skipped, bs ++ cs, by simp, bs, cs, rfl, hps, hqs⟩
    · simp only [single_iff hp, ih]
      constructor
      · rintro ⟨a, _, rfl, same, bs, cs, rfl, hps, hqs⟩
        exact ⟨a :: bs, cs, rfl, ⟨a, bs, rfl, same, hps⟩, hqs⟩
      · rintro ⟨_, cs, rfl, ⟨a, bs, rfl, same, hps⟩, hqs⟩
        exact ⟨a, bs ++ cs, rfl, same, bs, cs, rfl, hps, hqs⟩

theorem iff_eq_of_literal {ps as : List α} (literal : ∀ p ∈ ps, p ≠ run ∧ p ≠ one) :
    Likens run one ps as ↔ as = ps := by
  induction ps generalizing as with
  | nil => exact nil_iff
  | cons p ps ih =>
    obtain ⟨⟨hrun, hone⟩, hps⟩ := List.forall_mem_cons.mp literal
    rw [single_iff hrun]
    constructor
    · rintro ⟨a, rest, rfl, same, h⟩
      rw [(ih hps).mp h, same.resolve_left hone]
    · rintro rfl
      exact ⟨p, ps, rfl, .inr rfl, (ih hps).mpr rfl⟩

theorem unless_iff {p : Prop} [Decidable p] {as : List α} :
    Likens run one (if p then [] else [run]) as ↔ (p → as = []) := by
  split
  · next h => simp [nil_iff, h]
  · next h => simp [any_iff, nil_iff, h]

theorem map_iff {β : Type} {f : α → β} (injective : Function.Injective f) {ps as : List α} :
    Likens (f run) (f one) (ps.map f) (as.map f) ↔ Likens run one ps as := by
  induction ps generalizing as with
  | nil => simp [nil_iff]
  | cons p ps ih =>
    rw [List.map_cons]
    by_cases hp : p = run
    · subst hp
      simp only [any_iff, ← ih, List.map_eq_append_iff]
      constructor
      · rintro ⟨_, _, ⟨skipped, rest, rfl, rfl, rfl⟩, h⟩
        exact ⟨skipped, rest, rfl, h⟩
      · rintro ⟨skipped, rest, rfl, h⟩
        exact ⟨_, _, ⟨skipped, rest, rfl, rfl, rfl⟩, h⟩
    · have hne : f p ≠ f run := fun h => hp (injective h)
      simp only [single_iff hp, single_iff hne, ← ih, List.map_eq_cons_iff, injective.eq_iff]
      constructor
      · rintro ⟨_, _, ⟨a, rest, rfl, rfl, rfl⟩, same, h⟩
        exact ⟨a, rest, rfl, by simpa [injective.eq_iff] using same, h⟩
      · rintro ⟨a, rest, rfl, same, h⟩
        exact ⟨f a, rest.map f, ⟨a, rest, rfl, rfl, rfl⟩, by simpa [injective.eq_iff] using same, h⟩

end Likens

end

/-! ## What a pattern leaves of a text -/

namespace Pattern

theorem mem_tails {rest as : List Nat} : rest ∈ tails as ↔ rest <:+ as := by
  induction as with
  | nil => simp [tails]
  | cons a as ih => simp [tails, ih, List.suffix_cons_iff]

theorem pairwise_tails (as : List Nat) :
    (tails as).Pairwise fun longer rest => rest <:+ longer := by
  induction as with
  | nil => simp [tails]
  | cons a as ih =>
    refine List.pairwise_cons.mpr ⟨fun rest hrest => ?_, ih⟩
    exact (mem_tails.mp hrest).trans (List.suffix_cons a as)

theorem afterOne_eq_some {p : Nat} {as rest : List Nat} :
    afterOne p as = some rest ↔ ∃ c, as = c :: rest ∧ (p = underscore ∨ fold p = fold c) := by
  cases as with
  | nil => simp [afterOne]
  | cons c cs =>
    simp only [afterOne, Option.ite_none_right_eq_some, Option.some.injEq, List.cons.injEq]
    constructor
    · rintro ⟨same, rfl⟩
      exact ⟨c, ⟨rfl, rfl⟩, by simpa using same⟩
    · rintro ⟨_, ⟨rfl, rfl⟩, same⟩
      exact ⟨by simpa using same, rfl⟩

theorem pairwise_filterMap_afterOne {p : Nat} {rests : List (List Nat)}
    (ends : rests.Pairwise fun longer rest => rest <:+ longer) :
    (rests.filterMap (afterOne p)).Pairwise fun longer rest => rest <:+ longer := by
  refine ends.filterMap _ fun as bs suffix as' has bs' hbs => ?_
  obtain ⟨a, rfl, -⟩ := afterOne_eq_some.mp has
  obtain ⟨b, rfl, -⟩ := afterOne_eq_some.mp hbs
  obtain ⟨before, h⟩ := suffix
  cases before with
  | nil =>
    cases h
    exact List.suffix_refl _
  | cons c before =>
    obtain ⟨-, h⟩ := List.cons.inj h
    exact ⟨before ++ [b], by simpa using h⟩

theorem fold_eq_iff {code sign : Nat} (h : sign < 65 ∨ 90 < sign ∧ sign < 97) :
    fold code = sign ↔ code = sign := by
  simp only [fold, Bool.and_eq_true, decide_eq_true_eq]
  split <;> omega

theorem leftovers_percent {ps : List Nat} {longest : List Nat} {rests : List (List Nat)} :
    leftovers (percent :: ps) (longest :: rests) = leftovers ps (tails longest) := by
  rw [leftovers, if_pos rfl]

theorem leftovers_of_ne {p : Nat} (hp : p ≠ percent) (ps : List Nat) (rests : List (List Nat)) :
    leftovers (p :: ps) rests = leftovers ps (rests.filterMap (afterOne p)) := by
  cases rests <;> rw [leftovers, if_neg hp]

theorem leftovers_nil (pattern : List Nat) : leftovers pattern [] = [] := by
  induction pattern with
  | nil => rfl
  | cons p ps ih => simp [leftovers, ih]

/-- What is left of a text after a pattern is what stands behind something that is like the
pattern. The rests are ends of one text, each at most as long as the one before it, so that the
first of them leaves all that any of them leaves. -/
theorem mem_leftovers {pattern : List Nat} {rests : List (List Nat)} {rest : List Nat}
    (ends : rests.Pairwise fun longer rest => rest <:+ longer) :
    rest ∈ leftovers pattern rests ↔ ∃ read,
      Likens percent underscore (pattern.map fold) (read.map fold) ∧ read ++ rest ∈ rests := by
  induction pattern generalizing rests with
  | nil => simp [leftovers, Likens.nil_iff]
  | cons p ps ih =>
    rw [List.map_cons]
    by_cases hp : p = percent
    · subst hp
      have hfold : fold percent = percent := rfl
      rw [hfold]
      cases rests with
      | nil => simp [leftovers_nil]
      | cons longest rests =>
        rw [leftovers_percent, ih (pairwise_tails longest)]
        simp only [mem_tails, Likens.any_iff]
        constructor
        · rintro ⟨read, h, skipped, hlongest⟩
          refine ⟨skipped ++ read, ⟨skipped.map fold, read.map fold, by simp, h⟩, ?_⟩
          simp [← hlongest]
        · rintro ⟨read, ⟨skipped, _, hread, h⟩, hmem⟩
          obtain ⟨before, after, rfl, rfl, rfl⟩ := List.map_eq_append_iff.mp hread
          refine ⟨after, h, ?_⟩
          have hsuffix : before ++ after ++ rest <:+ longest := by
            rcases List.mem_cons.mp hmem with h | h
            · rw [h]
            · exact List.rel_of_pairwise_cons ends h
          exact List.IsSuffix.trans ⟨before, by simp⟩ hsuffix
    · have hfold : fold p ≠ percent := fun h => hp ((fold_eq_iff (by decide)).mp h)
      rw [leftovers_of_ne hp, ih (pairwise_filterMap_afterOne ends)]
      have hone : fold p = underscore ↔ p = underscore := fold_eq_iff (by decide)
      simp only [List.mem_filterMap, afterOne_eq_some, Likens.single_iff hfold, hone]
      constructor
      · rintro ⟨read, h, _, hmem, c, rfl, same⟩
        exact ⟨c :: read, ⟨fold c, read.map fold, rfl, same, h⟩, hmem⟩
      · rintro ⟨read, ⟨_, _, hread, same, h⟩, hmem⟩
        obtain ⟨c, read, rfl, rfl, rfl⟩ := List.map_eq_cons_iff.mp hread
        exact ⟨read, h, _, hmem, c, rfl, same⟩

/-- A pattern matches the texts that are like it, but for the case of letters. -/
theorem matchesAll_iff {pattern text : List Nat} :
    matchesAll pattern text = true ↔
      Likens percent underscore (pattern.map fold) (text.map fold) := by
  have hends := List.pairwise_singleton (fun longer rest : List Nat => rest <:+ longer) text
  have hnil : (leftovers pattern [text]).any List.isEmpty = true ↔
      [] ∈ leftovers pattern [text] := by
    simp
  rw [matchesAll, hnil, mem_leftovers hends]
  simp

/-! ## What is seen of a text -/

/-- A character as a match sees it: capitals of ASCII are small letters, and the two codes that
are no characters are the one that replaces them. -/
def glyph (c : Char) : Char :=
  if c = '\ufffe' ∨ c = '\uffff' then '\ufffd' else foldCase c

/-- What a match sees of a text: the characters before the first one of code zero. -/
def seen (s : String) : List Char :=
  (s.toList.takeWhile (· != '\x00')).map glyph

theorem toNat_foldCase (c : Char) : (foldCase c).toNat = fold c.toNat := by
  have hcapital : 'A' ≤ c ∧ c ≤ 'Z' ↔ 65 ≤ c.toNat ∧ c.toNat ≤ 90 := by
    simp only [Char.le_def, UInt32.le_iff_toNat_le]
    rfl
  unfold foldCase fold
  simp only [Bool.and_eq_true, decide_eq_true_eq, hcapital]
  split
  · next h =>
    have hvalid : (c.toNat + 32).isValidChar := .inl (by omega)
    rw [Char.ofNat, dif_pos hvalid]
    unfold Char.ofNatAux Char.toNat
    simp
    omega
  · rfl

theorem settled_toNat {c : Char} (h : 0x80 ≤ c.toNat) :
    settled c.toNat = if c = '\ufffe' ∨ c = '\uffff' then 0xfffd else c.toNat := by
  have hvalid : c.toNat < 0xd800 ∨ 0xdfff < c.toNat ∧ c.toNat < 0x110000 := c.valid
  have hlow : c = '\ufffe' ↔ c.toNat = 0xfffe := Char.toNat_inj.symm
  have hhigh : c = '\uffff' ↔ c.toNat = 0xffff := Char.toNat_inj.symm
  simp only [settled, Bool.or_eq_true, decide_eq_true_eq, hlow, hhigh]
  split <;> split <;> omega

theorem toNat_glyph (c : Char) :
    (glyph c).toNat = fold (if c.toNat < 0x80 then c.toNat else settled c.toNat) := by
  unfold glyph
  split
  · next h => rcases h with rfl | rfl <;> rfl
  · next h =>
    rw [toNat_foldCase]
    split
    · rfl
    · next hc => rw [settled_toNat (by omega), if_neg h]

theorem map_fold_codesOfText (s : String) :
    (codesOfText s).map fold = (seen s).map Char.toNat := by
  simp only [codesOfText, seen, List.map_map]
  exact List.map_congr_left fun c _ => (toNat_glyph c).symm

/-- A pattern matches a text if what is seen of the text is like what is seen of the pattern. -/
theorem holds_truth_text (pattern s : String) :
    Truth.holds (Pattern.truth pattern (.text s)) = true ↔
      Likens '%' '_' (seen pattern) (seen s) := by
  have injective : Function.Injective Char.toNat := fun _ _ h => Char.toNat_inj.mp h
  have hmatch : Truth.holds (Pattern.truth pattern (.text s)) =
      matchesAll (codesOfText pattern) (codesOfText s) := by
    simp [Pattern.truth, subject?, Truth.holds]
  rw [hmatch, matchesAll_iff, map_fold_codesOfText, map_fold_codesOfText]
  exact @Likens.map_iff Char '%' '_' Nat Char.toNat injective _ _

theorem takeWhile_append_ne (cs ds : List Char) (last : Char) :
    (cs ++ ds).takeWhile (· != last) =
      if last ∈ cs then cs.takeWhile (· != last)
      else cs.takeWhile (· != last) ++ ds.takeWhile (· != last) := by
  induction cs with
  | nil => simp
  | cons c cs ih =>
    by_cases hc : c = last
    · simp [hc]
    · have hne : ¬last = c := fun h => hc h.symm
      simp only [List.cons_append, List.takeWhile_cons, bne_iff_ne, ne_eq, hc, not_false_eq_true,
        if_true, ih, List.mem_cons, hne, false_or]
      split <;> rfl

theorem seen_append (s t : String) :
    seen (s ++ t) = if '\x00' ∈ s.toList then seen s else seen s ++ seen t := by
  rw [seen, String.toList_append, takeWhile_append_ne]
  split
  · rfl
  · rw [List.map_append]
    rfl

theorem seen_pattern (place : Placement) (needle : String) :
    seen (Test.pattern place needle) =
      (if place = .atStart then [] else ['%']) ++ seen needle ++
        if place = .atEnd ∨ '\x00' ∈ needle.toList then [] else ['%'] := by
  have hpercent : seen "%" = ['%'] := rfl
  have hchars : "%".toList = ['%'] := rfl
  cases place <;> by_cases h : '\x00' ∈ needle.toList <;>
    simp [Test.pattern, seen_append, hpercent, hchars, h]

theorem likens_pattern {place : Placement} {needle : String} {cs : List Char} :
    Likens '%' '_' (seen (Test.pattern place needle)) cs ↔
      ∃ before middle after, cs = before ++ middle ++ after ∧
        Likens '%' '_' (seen needle) middle ∧
        (place = .atStart → before = []) ∧
        (place = .atEnd ∨ '\x00' ∈ needle.toList → after = []) := by
  simp only [seen_pattern, Likens.append_iff, Likens.unless_iff]
  constructor
  · rintro ⟨_, after, rfl, ⟨before, middle, rfl, hbefore, h⟩, hafter⟩
    exact ⟨before, middle, after, rfl, h, hbefore, hafter⟩
  · rintro ⟨before, middle, after, rfl, h, hbefore, hafter⟩
    exact ⟨_, after, rfl, ⟨before, middle, rfl, hbefore, h⟩, hafter⟩

theorem glyph_eq_iff {c sign : Char} (h : sign = '%' ∨ sign = '_') : glyph c = sign ↔ c = sign := by
  have hsign : sign.toNat < 65 ∨ 90 < sign.toNat ∧ sign.toNat < 97 := by
    rcases h with rfl | rfl <;> decide
  unfold glyph
  split
  · next hc => rcases h with rfl | rfl <;> rcases hc with rfl | rfl <;> simp
  · rw [← Char.toNat_inj, toNat_foldCase, fold_eq_iff hsign, Char.toNat_inj]

theorem literal_seen {s : String} (literal : ∀ c ∈ s.toList, c ≠ '%' ∧ c ≠ '_') :
    ∀ c ∈ seen s, c ≠ '%' ∧ c ≠ '_' := by
  intro c hc
  obtain ⟨d, hd, rfl⟩ := List.mem_map.mp hc
  obtain ⟨hpercent, hunderscore⟩ := literal d ((List.takeWhile_sublist _).mem hd)
  constructor
  · exact fun h => hpercent ((glyph_eq_iff (.inl rfl)).mp h)
  · exact fun h => hunderscore ((glyph_eq_iff (.inr rfl)).mp h)

end Pattern

def Placement.Finds : Placement → List Char → List Char → Prop
  | anywhere, needle, text => needle <:+: text
  | atStart, needle, text => needle <+: text
  | atEnd, needle, text => needle <:+ text

theorem Placement.finds_iff {place : Placement} {needle text : List Char} :
    place.Finds needle text ↔
      ∃ before after, text = before ++ needle ++ after ∧
        (place = .atStart → before = []) ∧ (place = .atEnd → after = []) := by
  cases place with
  | anywhere =>
    constructor
    · rintro ⟨before, after, rfl⟩
      exact ⟨before, after, rfl, nofun, nofun⟩
    · rintro ⟨before, after, rfl, -⟩
      exact ⟨before, after, rfl⟩
  | atStart =>
    constructor
    · rintro ⟨after, rfl⟩
      exact ⟨[], after, rfl, fun _ => rfl, nofun⟩
    · rintro ⟨before, after, rfl, hbefore, -⟩
      rw [hbefore rfl]
      exact ⟨after, rfl⟩
  | atEnd =>
    constructor
    · rintro ⟨before, rfl⟩
      exact ⟨before, [], by simp, nofun, fun _ => rfl⟩
    · rintro ⟨before, after, rfl, -, hafter⟩
      rw [hafter rfl]
      exact ⟨before, by simp⟩

namespace Filter

/-- Which texts a needle finds. In a needle a percent sign stands for any characters and an
underscore for any one, and it ends before the first character of code zero, as a text does; what
the place asks of the end of the needle is not asked then. A needle without these finds the texts
in which it stands at the place, where letters of ASCII are seen without their case. -/
theorem likeness_selects {field : String} (plain : PlainName field.toList) {f : Frame} {row : Row}
    {s : String} (text : f.scalar row field = .text s) (place : Placement) (needle : String) :
    (Selects f [.test field (.like place (.text needle))] row ↔
      ∃ before middle after, Pattern.seen s = before ++ middle ++ after ∧
        Likens '%' '_' (Pattern.seen needle) middle ∧
        (place = .atStart → before = []) ∧
        (place = .atEnd ∨ '\x00' ∈ needle.toList → after = [])) ∧
    ((∀ c ∈ needle.toList, c ≠ '%' ∧ c ≠ '_' ∧ c ≠ '\x00') →
      (Selects f [.test field (.like place (.text needle))] row ↔
        place.Finds (Pattern.seen needle) (Pattern.seen s))) := by
  have hc : (Test.like place (.text needle)).condition field =
      .ok (.like field (Test.pattern place needle)) := rfl
  have htruth : Test.truth f row field (.like place (.text needle)) =
      Pattern.truth (Test.pattern place needle) (.text s) := by
    rw [Test.truth, Test.needle, text]
  have hselects := selects_single_iff plain hc f row
  rw [htruth, Pattern.holds_truth_text, Pattern.likens_pattern] at hselects
  refine ⟨hselects, fun literal => ?_⟩
  have hseen := Pattern.literal_seen fun c hc => ⟨(literal c hc).1, (literal c hc).2.1⟩
  have hzero : '\x00' ∉ needle.toList := fun h => (literal _ h).2.2 rfl
  rw [hselects, Placement.finds_iff]
  simp only [Likens.iff_eq_of_literal hseen, hzero, or_false]
  constructor
  · rintro ⟨before, _, after, htext, rfl, hbefore, hafter⟩
    exact ⟨before, after, htext, hbefore, hafter⟩
  · rintro ⟨before, after, htext, hbefore, hafter⟩
    exact ⟨before, _, after, htext, rfl, hbefore, hafter⟩

/-- The letters `pe` stand in the status of an open order, but not at its start. -/
theorem likeness_selects_open :
    orderFrame.scalar openOrder "status" = .text "OPEN" ∧
    Selects orderFrame [.test "status" (.like .anywhere (.text "pe"))] openOrder ∧
    ¬ Selects orderFrame [.test "status" (.like .atStart (.text "pe"))] openOrder := by
  have plain : PlainName "status".toList := isPlainName_iff.mp rfl
  have text : orderFrame.scalar openOrder "status" = .text "OPEN" := rfl
  have hletters : "pe".toList = ['p', 'e'] := rfl
  have literal : ∀ c ∈ "pe".toList, c ≠ '%' ∧ c ≠ '_' ∧ c ≠ '\x00' := by simp [hletters]
  have hneedle : Pattern.seen "pe" = ['p', 'e'] := rfl
  have hstatus : Pattern.seen "OPEN" = ['o', 'p', 'e', 'n'] := rfl
  obtain ⟨-, hanywhere⟩ := likeness_selects plain text .anywhere "pe"
  obtain ⟨-, hstart⟩ := likeness_selects plain text .atStart "pe"
  refine ⟨text, (hanywhere literal).mpr ?_, fun h => ?_⟩
  · exact ⟨['o'], ['n'], rfl⟩
  · obtain ⟨rest, hrest⟩ := (hstart literal).mp h
    rw [hneedle, hstatus] at hrest
    cases hrest

def numberedOrder : Row :=
  ⟨3, [.text "o3", .text "500"]⟩

/-- A status is found by a needle that does not stand in it, even if the case of letters does not
matter: the percent sign of the needle stands for the last digit. -/
theorem needle_finds_other_text :
    orderFrame.scalar numberedOrder "status" = .text "500" ∧
    ¬(Selects orderFrame [.test "status" (.like .anywhere (.text "50%"))] numberedOrder ↔
      "50%".toList.map foldCase <:+: "500".toList.map foldCase) := by
  refine ⟨rfl, fun h => ?_⟩
  have hneedle : "50%".toList.map foldCase = ['5', '0', '%'] := rfl
  have hstatus : "500".toList.map foldCase = ['5', '0', '0'] := rfl
  have hoccurs := h.mp ⟨_, rfl, rfl⟩
  rw [hneedle, hstatus] at hoccurs
  exact absurd hoccurs (by decide)

end Filter

end Relata
