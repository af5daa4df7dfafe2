import Relata.Proofs.Query.Glyphs
import Relata.Proofs.Sql.Spelling

/-! # Words of statements

The words of a text that is written in parts are the words of its parts, where a blank or a
parenthesis stands between them. A statement has no words but the keywords of the language,
the names of its table and its columns, and the labels of its results.
-/

namespace Relata

open Text

namespace Condition

theorem columnsOfAll_eq (cs : List Condition) : columnsOfAll cs = cs.flatMap columns := by
  induction cs with
  | nil => rfl
  | cons c cs ih => rw [columnsOfAll, ih, List.flatMap_cons]

theorem columnsOfParts_eq (parts : List (List Condition)) :
    columnsOfParts parts = parts.flatMap columnsOfAll := by
  induction parts with
  | nil => rfl
  | cons part parts ih => rw [columnsOfParts, ih, List.flatMap_cons]

theorem mem_columns_group {c : Connective} {parts : List (List Condition)}
    {part : List Condition} {d : Condition} {name : String} (hpart : part ∈ parts) (hd : d ∈ part)
    (hname : name ∈ columns d) : name ∈ columns (group c parts) := by
  rw [columns, columnsOfParts_eq]
  refine List.mem_flatMap.mpr ⟨part, hpart, ?_⟩
  rw [columnsOfAll_eq]
  exact List.mem_flatMap.mpr ⟨d, hd, hname⟩

end Condition

namespace Sql

/-- Characters that end what is in front of them, and are no part of a sign. -/
def isBreak (c : Char) : Bool :=
  " ,()".toList.contains c

theorem isBreak_apart {c : Char} (h : isBreak c = true) :
    continuesName c = false ∧ isDigit c = false ∧ ∀ s, (s, c) ∉ pairs := by
  have hmem : c ∈ [' ', ',', '(', ')'] := by simpa [isBreak] using h
  have : c = ' ' ∨ c = ',' ∨ c = '(' ∨ c = ')' := by simpa using hmem
  rcases this with rfl | rfl | rfl | rfl <;> exact ⟨rfl, rfl, by simp [pairs]⟩

theorem takeWhile_append_apart {p : Char → Bool} (a : List Char) {b : List Char}
    (h : ∀ c ∈ b.head?, p c = false) :
    (a ++ b).takeWhile p = a.takeWhile p ∧ (a ++ b).dropWhile p = a.dropWhile p ++ b := by
  induction a with
  | nil =>
    cases b with
    | nil => exact ⟨rfl, rfl⟩
    | cons c b => simp [h c rfl]
  | cons c a ih =>
    rw [List.cons_append, List.takeWhile_cons, List.dropWhile_cons, List.takeWhile_cons,
      List.dropWhile_cons]
    split
    · exact ⟨congrArg (c :: ·) ih.1, ih.2⟩
    · exact ⟨rfl, rfl⟩

theorem lex_cons (c : Char) (cs : List Char) :
    lex (c :: cs) =
      if isBlank c then lex cs
      else if startsName c then
        .word (c :: cs.takeWhile continuesName) :: lex (cs.dropWhile continuesName)
      else if isDigit c then
        .number (c :: cs.takeWhile isDigit) :: lex (cs.dropWhile isDigit)
      else
        match cs with
        | d :: rest =>
          if (c, d) ∈ pairs then .sign [c, d] :: lex rest else .sign [c] :: lex cs
        | [] => [.sign [c]] := by
  have hdrop (p : Char → Bool) : tokensFrom cs.length (cs.dropWhile p) = lex (cs.dropWhile p) :=
    tokensFrom_of_le (length_dropWhile_le p cs) (Nat.le_refl _)
  cases cs with
  | nil => simp only [lex, List.length_cons, List.length_nil, tokensFrom, List.dropWhile_nil]
  | cons d rest =>
    have hrest : tokensFrom (d :: rest).length rest = lex rest :=
      tokensFrom_of_le (by simp) (Nat.le_refl _)
    have hall : tokensFrom (d :: rest).length (d :: rest) = lex (d :: rest) := rfl
    rw [lex, List.length_cons]
    simp only [tokensFrom, hdrop, hrest, hall]

/-- A text that begins with a break has its tokens behind those of what precedes it. -/
theorem lex_append (a : List Char) {b : List Char} (h : ∀ c ∈ b.head?, isBreak c = true) :
    lex (a ++ b) = lex a ++ lex b := by
  induction hn : a.length using Nat.strongRecOn generalizing a with
  | ind n ih =>
    subst hn
    have hname := fun cs => takeWhile_append_apart (p := continuesName) cs (b := b)
      fun c hc => (isBreak_apart (h c hc)).1
    have hdigit := fun cs => takeWhile_append_apart (p := isDigit) cs (b := b)
      fun c hc => (isBreak_apart (h c hc)).2.1
    cases a with
    | nil => rfl
    | cons c cs =>
      have hcs := ih cs.length (by simp) cs rfl
      have hdrop (p : Char → Bool) : lex (cs.dropWhile p ++ b) = lex (cs.dropWhile p) ++ lex b :=
        ih _ (by have := length_dropWhile_le p cs; simp only [List.length_cons]; omega) _ rfl
      rw [List.cons_append, lex_cons, lex_cons, hcs, (hname cs).1, (hname cs).2, (hdigit cs).1,
        (hdigit cs).2, hdrop, hdrop]
      split
      · rfl
      split
      · rfl
      split
      · rfl
      cases cs with
      | nil =>
        cases b with
        | nil => rfl
        | cons d b => simp [(isBreak_apart (h d rfl)).2.2 c, lex_nil]
      | cons d rest =>
        have hrest := ih rest.length (by simp only [List.length_cons]; omega) rest rfl
        simp only [List.cons_append, hrest]
        split <;> rfl

/-- A text whose words are all among the given ones. -/
def Speaks (allowed : List String) (s : String) : Prop :=
  ∀ w, .word w ∈ tokens s → String.ofList w ∈ allowed

instance (allowed : List String) (s : String) : Decidable (Speaks allowed s) :=
  decidable_of_iff ((tokens s).all fun | .word w => allowed.contains (String.ofList w) | _ => true)
    (by
      rw [List.all_eq_true]
      constructor
      · intro h w hw
        simpa using h _ hw
      · intro h t ht
        cases t with
        | word w => simpa using h w ht
        | number | sign => rfl)

def closed (s : String) : Bool :=
  s.toList.getLast?.any fun c => c == ' ' || c == '('

def opens (s : String) : Bool :=
  s.toList.head?.all isBreak

theorem closed_append (s : String) {t : String} (h : closed t = true) : closed (s ++ t) = true := by
  rw [closed, Option.any_eq_true] at h ⊢
  obtain ⟨c, hc, hlast⟩ := h
  exact ⟨c, by rw [String.toList_append, List.getLast?_append, hc]; rfl, hlast⟩

theorem opens_append {s : String} (t : String) (h : s.toList.head?.any isBreak = true) :
    opens (s ++ t) = true := by
  rw [Option.any_eq_true] at h
  obtain ⟨c, hc, hbreak⟩ := h
  rw [opens, String.toList_append, List.head?_append, hc]
  exact hbreak

namespace Speaks

variable {allowed more : List String} {s t : String}

theorem mono (h : Speaks allowed s) (hsub : allowed ⊆ more) : Speaks more s :=
  fun w hw => hsub (h w hw)

theorem empty : Speaks allowed "" := by
  intro w hw
  cases hw

theorem name (plain : PlainName s.toList) (h : s ∈ allowed) : Speaks allowed s := by
  intro w hw
  have hlex : lex (s.toList ++ []) = .word s.toList :: lex [] := lex_word plain (by simp [Apart])
  rw [List.append_nil, lex_nil] at hlex
  rw [tokens_eq, hlex] at hw
  cases List.mem_singleton.mp hw
  rwa [String.ofList_toList]

theorem digits {cs : List Char} (h : ∀ c ∈ cs, isDigit c = true) :
    Speaks allowed (String.ofList cs) := by
  intro w hw
  cases cs with
  | nil => cases hw
  | cons c cs =>
    obtain ⟨hc, hcs⟩ := List.forall_mem_cons.mp h
    rw [tokens_eq, String.toList_ofList, lex_cons, isBlank_of_isDigit hc,
      startsName_of_isDigit hc, hc] at hw
    have hrest : (cs ++ []).dropWhile isDigit = [] := dropWhile_append_of_head hcs (by simp)
    rw [List.append_nil] at hrest
    simp [hrest, lex_nil] at hw

theorem repr (n : Nat) : Speaks allowed n.repr := by
  rw [Nat.repr_eq_ofList_toDigits]
  exact digits fun c hc => Nat.isDigit_of_mem_toDigits (by omega) (by omega) hc

theorem append_opens (hs : Speaks allowed s) (ht : Speaks allowed t) (h : opens t = true) :
    Speaks allowed (s ++ t) := by
  have hbreak : ∀ c ∈ t.toList.head?, isBreak c = true := by
    intro c hc
    rw [opens, hc] at h
    exact h
  intro w hw
  rw [tokens_eq, String.toList_append, lex_append _ hbreak, ← tokens_eq, ← tokens_eq] at hw
  exact (List.mem_append.mp hw).elim (hs w) (ht w)

theorem append_closed (hs : Speaks allowed s) (ht : Speaks allowed t) (h : closed s = true) :
    Speaks allowed (s ++ t) := by
  rw [closed, Option.any_eq_true] at h
  obtain ⟨c, hc, hlast⟩ := h
  obtain ⟨cs, hcs⟩ := List.getLast?_eq_some_iff.mp hc
  have hsplit : lex (s.toList ++ t.toList) = lex s.toList ++ lex t.toList := by
    have hcases : c = ' ' ∨ c = '(' := by simpa using hlast
    have hbreak : isBreak c = true := by
      rcases hcases with rfl | rfl <;> rfl
    have hend (rest : List Char) : lex (cs ++ c :: rest) = lex cs ++ lex (c :: rest) :=
      lex_append cs (by simpa using hbreak)
    rw [hcs, List.append_assoc, List.singleton_append, hend, hend [], List.append_assoc]
    rcases hcases with rfl | rfl
    · rw [lex_blank, lex_blank, lex_nil, List.nil_append]
    · rw [lex_open, lex_open, lex_nil]
      rfl
  intro w hw
  rw [tokens_eq, String.toList_append, hsplit, ← tokens_eq, ← tokens_eq] at hw
  exact (List.mem_append.mp hw).elim (hs w) (ht w)

theorem separated {separator : String} {ss : List String} (hs : Speaks allowed separator)
    (hopens : opens separator = true) (hclosed : closed separator = true)
    (h : ∀ s ∈ ss, Speaks allowed s) : Speaks allowed (Text.separated separator ss) := by
  fun_induction Text.separated separator ss with
  | case1 => exact empty
  | case2 s => exact h s (List.mem_singleton_self s)
  | case3 s rest _ ih =>
    obtain ⟨hfirst, hrest⟩ := List.forall_mem_cons.mp h
    exact (hfirst.append_opens hs hopens).append_closed (ih hrest) (closed_append s hclosed)

end Speaks

def keywords : List String :=
  ["SELECT", "FROM", "WHERE", "ORDER", "BY", "ASC", "DESC", "LIMIT", "OFFSET", "INSERT", "INTO",
    "VALUES", "UPDATE", "SET", "DELETE", "AND", "OR", "NOT", "IS", "NULL", "IN", "LIKE", "AS",
    "COUNT", "SUM", "AVG", "MIN", "MAX"]

section

variable {allowed : List String} (speaks : keywords ⊆ allowed)

include speaks

theorem Speaks.keyword {s : String} (h : Speaks keywords s) : Speaks allowed s :=
  h.mono speaks

theorem speaks_marks (count : Nat) : Speaks allowed (Condition.marks count) := by
  refine .separated (.keyword speaks (by decide)) rfl rfl fun s hs => ?_
  rw [List.eq_of_mem_replicate hs]
  exact .keyword speaks (by decide)

theorem speaks_conjunctionText {cs : List Condition} (h : ∀ c ∈ cs, Speaks allowed c.text) :
    Speaks allowed (Condition.conjunctionText cs) := by
  rw [Condition.conjunctionText, Condition.texts_eq]
  refine .separated (.keyword speaks (by decide)) rfl rfl fun t ht => ?_
  obtain ⟨c, hc, rfl⟩ := List.mem_map.mp ht
  exact h c hc

theorem speaks_condition {c : Condition}
    (names : ∀ n ∈ c.columns, PlainName n.toList ∧ n ∈ allowed) : Speaks allowed c.text := by
  have word {s : String} (h : Speaks keywords s) : Speaks allowed s := .keyword speaks h
  have column {n : String} (h : PlainName n.toList ∧ n ∈ allowed) : Speaks allowed n :=
    .name h.1 h.2
  have marked (n : Nat) {s : String} (hs : Speaks allowed s) (hclosed : closed s = true) :
      Speaks allowed (s ++ Condition.marks n ++ ")") :=
    (hs.append_closed (speaks_marks speaks n) hclosed).append_opens (word (by decide)) rfl
  induction c using Condition.induction with
  | constant holds => cases holds <;> exact word (by decide)
  | isNull n =>
    exact (column (names n (by simp [Condition.columns]))).append_opens (word (by decide)) rfl
  | notNull n =>
    exact (column (names n (by simp [Condition.columns]))).append_opens (word (by decide)) rfl
  | compare n how operand =>
    have hn := column (names n (by simp [Condition.columns]))
    have hsign : Speaks allowed how.sign := word (by cases how <;> decide)
    exact ((hn.append_opens (word (s := " ") (by decide)) rfl).append_closed hsign
      (closed_append n rfl)).append_opens (word (by decide)) rfl
  | among n operands =>
    have hn := column (names n (by simp [Condition.columns]))
    exact marked _ (hn.append_opens (word (s := " IN (") (by decide)) rfl) (closed_append n rfl)
  | outside n operands =>
    have hn := column (names n (by simp [Condition.columns]))
    exact marked _ (hn.append_opens (word (s := " NOT IN (") (by decide)) rfl)
      (closed_append n rfl)
  | like n pattern =>
    exact (column (names n (by simp [Condition.columns]))).append_opens (word (by decide)) rfl
  | group c parts ih =>
    have hkeyword : Speaks allowed c.keyword ∧ opens c.keyword = true ∧
        closed c.keyword = true := by
      cases c <;> exact ⟨word (by decide), rfl, rfl⟩
    have hparts : ∀ s ∈ Condition.partTexts parts, Speaks allowed s := by
      rw [Condition.partTexts_eq]
      intro s hs
      obtain ⟨part, hpart, rfl⟩ := List.mem_map.mp hs
      refine speaks_conjunctionText speaks fun d hd => ?_
      exact ih part hpart d hd fun n hn => names n (Condition.mem_columns_group hpart hd hn)
    exact ((word (s := "(") (by decide)).append_closed
      (.separated hkeyword.1 hkeyword.2.1 hkeyword.2.2 hparts) rfl).append_opens
        (word (by decide)) rfl

theorem speaks_conjunction {cs : List Condition}
    (names : ∀ n ∈ Condition.columnsOfAll cs, PlainName n.toList ∧ n ∈ allowed) :
    Speaks allowed (Condition.conjunctionText cs) := by
  refine speaks_conjunctionText speaks fun c hc => speaks_condition speaks fun n hn => names n ?_
  rw [Condition.columnsOfAll_eq]
  exact List.mem_flatMap.mpr ⟨c, hc, hn⟩

theorem speaks_whereClause {cs : List Condition}
    (names : ∀ n ∈ Condition.columnsOfAll cs, PlainName n.toList ∧ n ∈ allowed) :
    Speaks allowed (Command.whereClause cs) ∧ opens (Command.whereClause cs) = true := by
  rw [Command.whereClause]
  split
  · exact ⟨.empty, rfl⟩
  · refine ⟨?_, opens_append _ rfl⟩
    exact .append_closed (.keyword speaks (by decide)) (speaks_conjunction speaks names) rfl

theorem speaks_following {clause : String} (h : Speaks allowed clause) :
    Speaks allowed (Command.following clause) ∧ opens (Command.following clause) = true := by
  rw [Command.following]
  split
  · exact ⟨.empty, rfl⟩
  · exact ⟨.append_closed (.keyword speaks (by decide)) h rfl, opens_append _ rfl⟩

theorem speaks_order {order : Order}
    (names : ∀ n ∈ order.fields, PlainName n.toList ∧ n ∈ allowed) :
    Speaks allowed order.clause := by
  rw [Order.clause]
  split
  · exact .empty
  · refine .append_closed (.keyword speaks (by decide)) ?_ rfl
    refine .separated (.keyword speaks (by decide)) rfl rfl fun t ht => ?_
    obtain ⟨e, he, rfl⟩ := List.mem_map.mp ht
    have hname := names e.1 (List.mem_map_of_mem he)
    have hkeyword : Speaks keywords e.2.keyword := by
      cases e.2 <;> decide
    exact ((Speaks.name hname.1 hname.2).append_opens (.keyword speaks (s := " ") (by decide))
      rfl).append_closed (.keyword speaks hkeyword) (closed_append _ rfl)

theorem speaks_page (page : Page) : Speaks allowed page.clause := by
  have counted {s : String} (h : Speaks keywords s) (hclosed : closed s = true) (n : Nat) :
      Speaks allowed (s ++ n.repr) :=
    (Speaks.keyword speaks h).append_closed (.repr n) hclosed
  obtain ⟨take, skip⟩ := page
  cases take with
  | none =>
    cases skip with
    | none => exact .empty
    | some n => exact counted (s := "LIMIT -1 OFFSET ") (by decide) rfl _
  | some m =>
    have htake := counted (s := "LIMIT ") (by decide) rfl (Page.clamp m)
    cases skip with
    | none => exact htake
    | some n =>
      exact (htake.append_opens (.keyword speaks (s := " OFFSET ") (by decide)) rfl).append_closed
        (.repr _) (closed_append _ rfl)

end

end Sql

/-! ## Commands -/

def Projection.columnNames : Projection → List String
  | everything => []
  | columns names => names
  | measures ms => ms.filterMap Measure.column

def Projection.labels : Projection → List String
  | everything => []
  | columns _ => []
  | measures ms => ms.map Measure.label

namespace Command

def table? : Command → Option String
  | query _ table _ _ _ => some table
  | values _ => none
  | insert table _ => some table
  | update table _ _ => some table
  | delete table _ => some table
  | control _ => none

/-- The columns of its table that a command names: those it shows, tests, sorts by or sets. -/
def columns : Command → List String
  | query projection _ cs order _ =>
    projection.columnNames ++ (Condition.columnsOfAll cs ++ order.fields)
  | values _ => []
  | insert _ cells => cells.map Prod.fst
  | update _ cells cs => cells.map Prod.fst ++ Condition.columnsOfAll cs
  | delete _ cs => Condition.columnsOfAll cs
  | control _ => []

def labels : Command → List String
  | query projection .. => projection.labels
  | _ => []

open Sql

variable {allowed : List String} (speaks : keywords ⊆ allowed)

include speaks

theorem speaks_projection {projection : Projection}
    (names : ∀ n ∈ projection.columnNames ++ projection.labels, PlainName n.toList ∧ n ∈ allowed) :
    Speaks allowed projection.text := by
  have word {s : String} (h : Speaks keywords s) : Speaks allowed s := .keyword speaks h
  cases projection with
  | everything => exact word (by decide)
  | columns ns =>
    refine .separated (word (by decide)) rfl rfl fun n hn => ?_
    have := names n (List.mem_append_left _ hn)
    exact .name this.1 this.2
  | measures ms =>
    refine .separated (word (by decide)) rfl rfl fun t ht => ?_
    obtain ⟨m, hm, rfl⟩ := List.mem_map.mp ht
    have hlabel := names m.label (List.mem_append_right _ (List.mem_map_of_mem hm))
    have hfold : Speaks allowed m.fold.keyword := word (by cases m.fold <;> decide)
    have hcolumn : Speaks allowed (m.column.getD "*") := by
      cases hc : m.column with
      | none => exact word (by decide)
      | some n =>
        have := names n (List.mem_append_left _ (List.mem_filterMap.mpr ⟨m, hm, hc⟩))
        exact .name this.1 this.2
    have hopen := (hfold.append_opens (word (s := "(") (by decide)) rfl).append_closed hcolumn
      (closed_append _ rfl)
    exact (hopen.append_opens (word (s := ") AS ") (by decide)) rfl).append_closed
      (.name hlabel.1 hlabel.2) (closed_append _ rfl)

/-- The words of a statement are those of the language, its table, its columns and the labels
of its results. -/
theorem speaks_text {k : Command} {table : String} (about : k.table? = some table)
    (names : ∀ n ∈ table :: (k.columns ++ k.labels), PlainName n.toList ∧ n ∈ allowed) :
    Speaks allowed k.text := by
  have word {s : String} (h : Speaks keywords s) : Speaks allowed s := .keyword speaks h
  obtain ⟨htable, hnames⟩ := List.forall_mem_cons.mp names
  have named : Speaks allowed table := .name htable.1 htable.2
  cases k with
  | values | control => cases about
  | query projection t cs order page =>
    cases about
    simp only [columns, labels, List.forall_mem_append] at hnames
    obtain ⟨⟨hshown, hcs, horder⟩, hlabels⟩ := hnames
    have hprojection := speaks_projection speaks (List.forall_mem_append.mpr ⟨hshown, hlabels⟩)
    have hwhere := speaks_whereClause speaks hcs
    have hsorted := speaks_following speaks (speaks_order speaks horder)
    have hpage := speaks_following speaks (speaks_page speaks page)
    have hfrom := ((word (s := "SELECT ") (by decide)).append_closed hprojection
      rfl).append_opens (word (s := " FROM ") (by decide)) rfl
    exact (((hfrom.append_closed named (closed_append _ rfl)).append_opens hwhere.1
      hwhere.2).append_opens hsorted.1 hsorted.2).append_opens hpage.1 hpage.2
  | insert t cells =>
    cases about
    simp only [columns, labels, List.append_nil] at hnames
    have hcells : Speaks allowed (separated ", " (cells.map Prod.fst)) :=
      .separated (word (by decide)) rfl rfl fun n hn => .name (hnames n hn).1 (hnames n hn).2
    have hinto := ((word (s := "INSERT INTO ") (by decide)).append_closed named rfl).append_opens
      (word (s := " (") (by decide)) rfl
    have hvalues := (hinto.append_closed hcells (closed_append _ rfl)).append_opens
      (word (s := ") VALUES (") (by decide)) rfl
    exact (hvalues.append_closed (speaks_marks speaks _) (closed_append _ rfl)).append_opens
      (word (by decide)) rfl
  | update t cells cs =>
    cases about
    simp only [columns, labels, List.append_nil, List.forall_mem_append] at hnames
    have hcells : Speaks allowed (separated ", " (cells.map fun c => c.1 ++ " = ?")) := by
      refine .separated (word (by decide)) rfl rfl fun t ht => ?_
      obtain ⟨c, hc, rfl⟩ := List.mem_map.mp ht
      have hname := hnames.1 c.1 (List.mem_map_of_mem hc)
      exact (Speaks.name hname.1 hname.2).append_opens (word (by decide)) rfl
    have hwhere := speaks_whereClause speaks hnames.2
    have hset := ((word (s := "UPDATE ") (by decide)).append_closed named rfl).append_opens
      (word (s := " SET ") (by decide)) rfl
    exact (hset.append_closed hcells (closed_append _ rfl)).append_opens hwhere.1 hwhere.2
  | delete t cs =>
    cases about
    simp only [columns, labels, List.append_nil] at hnames
    have hwhere := speaks_whereClause speaks hnames
    exact ((word (s := "DELETE FROM ") (by decide)).append_closed named rfl).append_opens
      hwhere.1 hwhere.2

end Command

end Relata
