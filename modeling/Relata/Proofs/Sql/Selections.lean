import Relata.Proofs.Sql.Measures
import Relata.Proofs.Text.Decimal

/-! # Selections and insertions read back

Behind the conditions of a selection come its order and its page. If the table is called by no
reserved word and no name is a keyword where it is sought, the text of a selection is read as one
of the same results over the rows of the same table that meet the same conditions, in the same
order, cut to the same page; and the text of an insertion is read as that insertion.
-/

namespace Relata

open Sql Text

/-! ## Counts -/

namespace Text

theorem digitChar_eq {d : Nat} (h : d < 10) : Nat.digitChar d = digitChar d := by
  interval_cases d <;> rfl

theorem toDigits_eq_decimal (n : Nat) : Nat.toDigits 10 n = decimal n := by
  induction n using Nat.strong_induction_on with
  | _ n ih =>
    by_cases hn : n < 10
    · rw [Nat.toDigits_of_lt_base hn, decimal_of_lt hn, digitChar_eq hn]
    · rw [Nat.toDigits_of_base_le (by omega) (by omega), decimal_of_le (by omega),
        ih (n / 10) (by omega), digitChar_eq (by omega)]

theorem toList_repr (n : Nat) : n.repr.toList = decimal n := by
  rw [Nat.repr_eq_ofList_toDigits, String.toList_ofList, toDigits_eq_decimal]

end Text

namespace Sql

theorem lex_number {ds rest : List Char} (some : ds ≠ []) (digits : ∀ d ∈ ds, isDigit d = true)
    (hr : ∀ c ∈ rest.head?, isDigit c = false) : lex (ds ++ rest) = .number ds :: lex rest := by
  obtain ⟨d, ds, rfl⟩ := List.exists_cons_of_ne_nil some
  obtain ⟨hd, hds⟩ := List.forall_mem_cons.mp digits
  simp only [lex, List.cons_append, List.length_cons, tokensFrom, isBlank_of_isDigit hd,
    startsName_of_isDigit hd, hd, Bool.false_eq_true, if_false, if_true]
  rw [takeWhile_append_of_head hds hr, dropWhile_append_of_head hds hr]
  exact congrArg _ (tokensFrom_of_le (by simp) (Nat.le_refl _))

theorem isDigit_of_not_continuesName {c : Char} (h : continuesName c = false) :
    isDigit c = false := by
  rw [continuesName, Bool.or_eq_false_iff, Bool.or_eq_false_iff] at h
  exact h.1.2

def countToken (n : UInt64) : Token :=
  .number (decimal (Page.clamp n))

theorem spells_count (n : UInt64) : Spells (Page.clamp n).repr.toList [countToken n] := by
  intro rest hrest
  rw [toList_repr]
  exact lex_number (decimal_ne_nil _) (fun d => isDigit_of_mem_decimal)
    fun c hc => isDigit_of_not_continuesName (hrest c hc)

end Sql

def Page.asRead (page : Page) : Page where
  take := page.take.map fun n => UInt64.ofNat (clamp n)
  skip := page.skip.map fun n => UInt64.ofNat (clamp n)

namespace Page

theorem toNat_clamped (n : UInt64) : (UInt64.ofNat (clamp n)).toNat = min n.toNat largest := by
  rw [UInt64.toNat_ofNat', clamp, Nat.mod_eq_of_lt]
  have := Nat.min_le_right n.toNat largest
  rw [largest] at this ⊢
  omega

variable {α : Type} {rows : List α} (bounded : rows.length ≤ largest)

include bounded

theorem take_clamped (n : UInt64) :
    rows.take (UInt64.ofNat (clamp n)).toNat = rows.take n.toNat := by
  rw [toNat_clamped]
  by_cases h : n.toNat ≤ largest
  · rw [Nat.min_eq_left h]
  · rw [Nat.min_eq_right (by omega), List.take_of_length_le bounded,
      List.take_of_length_le (by omega)]

theorem drop_clamped (n : UInt64) :
    rows.drop (UInt64.ofNat (clamp n)).toNat = rows.drop n.toNat := by
  rw [toNat_clamped]
  by_cases h : n.toNat ≤ largest
  · rw [Nat.min_eq_left h]
  · rw [Nat.min_eq_right (by omega), List.drop_of_length_le bounded,
      List.drop_of_length_le (by omega)]

/-- Of no more rows than a clause can count, the page as it is read is the page itself. -/
theorem slice_asRead (page : Page) : page.asRead.slice rows = page.slice rows := by
  obtain ⟨take, skip⟩ := page
  -- What is left after the first rows is no longer than all of them.
  have rest : ∀ skip : Option UInt64, ∃ rest : List α, rest.length ≤ largest ∧
      (∀ take, slice ⟨take, skip⟩ rows = slice ⟨take, none⟩ rest) ∧
      ∀ take, slice ⟨take, skip.map fun n => UInt64.ofNat (clamp n)⟩ rows =
        slice ⟨take, none⟩ rest := by
    intro skip
    cases skip with
    | none => exact ⟨rows, bounded, fun _ => rfl, fun _ => rfl⟩
    | some n =>
      refine ⟨rows.drop n.toNat, by rw [List.length_drop]; omega, fun _ => rfl, fun take => ?_⟩
      simp only [slice, Option.map_some, drop_clamped bounded]
  obtain ⟨left, hleft, hslice, hread⟩ := rest skip
  rw [asRead, hread, hslice]
  cases take with
  | none => rfl
  | some n => exact take_clamped hleft n

end Page

/-! ## Order and page -/

namespace Sql

def sortTokens (e : String × Direction) : List Token :=
  [.word e.1.toList, .word e.2.keyword.toList]

def orderTokens (order : Order) : List Token :=
  if order.isEmpty then []
  else .word "ORDER".toList :: .word "BY".toList ::
    [Token.sign [',']].intercalate (order.map sortTokens)

def limitTokens : Option UInt64 → List Token
  | some n => [countToken n]
  | none => [.sign ['-'], .number ['1']]

def offsetTokens : Option UInt64 → List Token
  | some n => [.word "OFFSET".toList, countToken n]
  | none => []

def pageTokens (page : Page) : List Token :=
  if page.isEmpty then []
  else .word "LIMIT".toList :: (limitTokens page.take ++ offsetTokens page.skip)

theorem spells_nil : Spells [] [] :=
  fun _ _ => rfl

theorem spells_blank {cs : List Char} {ts : List Token} (h : Spells cs ts) :
    Spells (' ' :: cs) ts :=
  fun rest hrest => (lex_blank _).trans (h rest hrest)

theorem spells_wordBlank {w cs : List Char} {ts : List Token} (hw : isPlainName w = true)
    (h : Spells cs ts) : Spells (w ++ ' ' :: cs) (.word w :: ts) := by
  intro rest hrest
  rw [List.append_assoc, List.cons_append, Command.lex_wordBlank hw, h rest hrest]
  rfl

theorem spells_append_blank {cs ds : List Char} {ts us : List Token} (hc : Spells cs ts)
    (hd : Spells (' ' :: ds) us) : Spells (cs ++ ' ' :: ds) (ts ++ us) := by
  intro rest hrest
  rw [List.append_assoc, List.cons_append, hc _ (apart_cons.mpr rfl), List.append_assoc]
  exact congrArg _ (hd rest hrest)

theorem spells_name {name : String} (plain : PlainName name.toList) :
    Spells name.toList [.word name.toList] :=
  fun _ hrest => lex_word plain hrest

theorem spells_following {clause : String} {ts : List Token} (h : Spells clause.toList ts) :
    Spells (Command.following clause).toList ts := by
  rw [Command.following]
  split
  · next hempty =>
    rw [String.isEmpty_iff] at hempty
    rwa [hempty] at h
  · rw [String.toList_append]
    exact spells_blank h

theorem spells_sort {e : String × Direction} (plain : PlainName e.1.toList) :
    Spells (e.1 ++ " " ++ e.2.keyword).toList (sortTokens e) := by
  have keyword : PlainName e.2.keyword.toList := by
    cases e.2 <;> exact isPlainName_iff.mp rfl
  have chars : (e.1 ++ " " ++ e.2.keyword).toList = e.1.toList ++ ' ' :: e.2.keyword.toList := by
    simp only [String.toList_append, List.append_assoc]
    rfl
  rw [chars]
  exact spells_wordBlank (isPlainName_iff.mpr plain) (spells_name keyword)

theorem spells_order {order : Order} (plain : ∀ e ∈ order, PlainName e.1.toList) :
    Spells order.clause.toList (orderTokens order) := by
  rw [Order.clause, orderTokens]
  split
  · exact spells_nil
  · rw [String.toList_append]
    have keys := spells_separated Command.lex_comma_blank (fun _ => apart_cons.mpr rfl)
      fun e he => spells_sort (plain e he)
    exact @spells_wordBlank "ORDER".toList _ _ rfl (@spells_wordBlank "BY".toList _ _ rfl keys)

theorem spells_minusOne : Spells "-1".toList [.sign ['-'], .number ['1']] := by
  intro rest hrest
  have digit : lex ('1' :: rest) = .number ['1'] :: lex rest :=
    lex_digit rfl fun c hc => isDigit_of_not_continuesName (hrest c hc)
  have minus (rest : List Char) : lex ('-' :: rest) = .sign ['-'] :: lex rest :=
    lex_sign rest rfl rfl rfl (by simp [pairs])
  exact (minus _).trans (congrArg _ digit)

theorem spells_page (page : Page) : Spells page.clause.toList (pageTokens page) := by
  have limit {cs : List Char} {ts : List Token} (h : Spells cs ts) :
      Spells ("LIMIT".toList ++ ' ' :: cs) (.word "LIMIT".toList :: ts) := spells_wordBlank rfl h
  have offset (n : UInt64) : Spells (" OFFSET ".toList ++ (Page.clamp n).repr.toList)
      (offsetTokens (some n)) :=
    spells_blank (@spells_wordBlank "OFFSET".toList _ _ rfl (spells_count n))
  obtain ⟨take, skip⟩ := page
  rcases take with - | take <;> rcases skip with - | skip
  · exact spells_nil
  · rw [Page.clause, String.toList_append]
    exact limit (spells_append_blank spells_minusOne (offset skip))
  · rw [Page.clause, String.toList_append]
    exact limit (spells_count take)
  · rw [Page.clause, String.toList_append, String.toList_append, String.toList_append,
      List.append_assoc, List.append_assoc]
    exact limit (spells_append_blank (spells_count take) (offset skip))

end Sql

namespace Sql.Reader

variable {ts rest : List Token} {ps more : List Scalar}

structure Begins (cs : List Char) : Prop where
  free : isReserved cs = false
  cast : isWord "cast" (.word cs) = false
  raise : isWord "raise" (.word cs) = false

theorem Begins.operand {cs : List Char} (h : Begins cs) :
    operand ⟨.word cs :: ts, ps⟩ = .ok (String.ofList cs, ⟨ts, ps⟩) := by
  have hw (w : String) (hw : w ∈ reserved) : isWord w (.word cs) = false :=
    isWord_of_not_isReserved h.free hw
  simp [Reader.operand, bind_apply, word?_cons, anyWord?_cons, Except.bind, hw "null" (by decide),
    hw "not" (by decide), hw "case" (by decide), h.cast, hw "exists" (by decide), h.raise,
    name_cons h.free]

theorem orderKey_tokens {e : String × Direction} (h : Begins e.1.toList) :
    orderKey ⟨sortTokens e ++ ts, ps⟩ = .ok (e, ⟨ts, ps⟩) := by
  obtain ⟨field, d⟩ := e
  have negated : ∀ t ∈ (sortTokens (field, d) ++ ts).head?, isWord "not" t = false := by
    simpa [sortTokens] using isWord_of_not_isReserved h.free (by decide)
  have sorted : sortOperand ⟨sortTokens (field, d) ++ ts, ps⟩ =
      .ok (field, ⟨.word d.keyword.toList :: ts, ps⟩) := by
    rw [sortOperand, bind_of_ok (word?_of_ne negated), if_neg Bool.false_ne_true]
    refine h.operand.trans ?_
    rw [String.ofList_toList]
    rfl
  rw [orderKey, bind_of_ok sorted]
  cases d <;> rfl

theorem head_pageTokens (page : Page) :
    ∀ t ∈ (pageTokens page).head?, isSign "," t = false ∧
      ∀ w ∈ ["where", "and", "or", "order"], isWord w t = false := by
  rw [pageTokens]
  split
  · simp
  · rintro t ⟨⟩
    exact ⟨rfl, by decide⟩

theorem orderClause_tokens {order : Order} (h : ∀ e ∈ order, Begins e.1.toList) (page : Page) :
    orderClause ⟨orderTokens order ++ pageTokens page, ps⟩ =
      .ok (order, ⟨pageTokens page, ps⟩) := by
  cases order with
  | nil =>
    have none : ∀ t ∈ (pageTokens page).head?, isWord "order" t = false :=
      fun t ht => (head_pageTokens page t ht).2 "order" (by simp)
    exact bind_of_ok (word?_of_ne none)
  | cons e order =>
    have keys := @listOf_items _ orderKey sortTokens (fun _ => []) (e :: order) (by simp)
      (by simp [sortTokens]) (fun e he ts ps => orderKey_tokens (h e he)) (pageTokens page) ps
      fun t ht => (head_pageTokens page t ht).1
    have unbound : (e :: order).flatMap (fun _ => ([] : List Scalar)) = [] :=
      List.flatMap_eq_nil_iff.mpr fun _ _ => rfl
    rw [unbound, List.nil_append] at keys
    rw [orderClause, orderTokens, List.isEmpty_cons, if_neg Bool.false_ne_true, List.cons_append,
      List.cons_append, bind_of_ok (word?_of_eq rfl), if_pos rfl, bind_of_ok (word_cons rfl)]
    exact keys

theorem count?_tokens (n : UInt64) : count? ⟨countToken n :: ts, ps⟩ =
    .ok (some (UInt64.ofNat (Page.clamp n)), ⟨ts, ps⟩) := by
  have read : count? ⟨countToken n :: ts, ps⟩ =
      .ok (some (UInt64.ofNat (valueOfDigits (decimal (Page.clamp n)))), ⟨ts, ps⟩) := rfl
  rw [read, valueOfDigits_decimal]

theorem pageClause_tokens (page : Page) :
    pageClause ⟨pageTokens page, ps⟩ = .ok (page.asRead, ⟨[], ps⟩) := by
  have limited (take : Option UInt64) (ts : List Token) :
      count? ⟨limitTokens take ++ ts, ps⟩ =
        .ok (take.map fun n => UInt64.ofNat (Page.clamp n), ⟨ts, ps⟩) := by
    cases take with
    | none => rfl
    | some n => exact count?_tokens n
  have paged {page : Page} (h : page.isEmpty = false) :
      pageClause ⟨pageTokens page, ps⟩ = .ok (page.asRead, ⟨[], ps⟩) := by
    rw [pageTokens, h, if_neg Bool.false_ne_true, pageClause, bind_of_ok (word?_of_eq rfl),
      if_pos rfl, bind_of_ok (limited _ _)]
    cases hskip : page.skip with
    | none => rw [Page.asRead, hskip]; rfl
    | some n =>
      have offset : word? "offset" ⟨offsetTokens (some n), ps⟩ =
          .ok (true, ⟨[countToken n], ps⟩) := rfl
      rw [Page.asRead, hskip, bind_of_ok offset, if_pos rfl, bind_of_ok (count?_tokens n)]
      rfl
  obtain ⟨take, skip⟩ := page
  cases take with
  | some n => exact paged rfl
  | none =>
    cases skip with
    | some n => exact paged rfl
    | none => rfl

/-! ## What is shown -/

end Sql.Reader

/-- A result under a name, which is one of a column that can be named, or of whole rows. -/
structure Measure.Named (m : Measure) : Prop where
  written : m.IsWritten
  begins : ∀ c ∈ m.column, Reader.Begins c.toList

namespace Sql.Reader

variable {ts rest : List Token} {ps more : List Scalar}

theorem argument_tokens {cs : List Char} (h : Begins cs) :
    argument ⟨.word cs :: ts, ps⟩ = .ok (String.ofList cs, ⟨ts, ps⟩) := by
  have hw (w : String) (hw : w ∈ reserved) : isWord w (.word cs) = false :=
    isWord_of_not_isReserved h.free hw
  have step : argument ⟨.word cs :: ts, ps⟩ =
      (if isWord "all" (.word cs) || isWord "distinct" (.word cs) then do
        skip
        return String.ofList (Token.word cs).chars
      else if isWord "order" (.word cs) then do
        skip
        refuse
      else operand : Reader String) ⟨.word cs :: ts, ps⟩ := rfl
  rw [step, hw "all" (by decide), hw "distinct" (by decide), hw "order" (by decide)]
  exact h.operand

theorem item_tokens {m : Measure} (h : m.Named) :
    item ⟨m.tokens ++ ts, ps⟩ = .ok (.measure m, ⟨ts, ps⟩) := by
  obtain ⟨fold, column, label⟩ := m
  have named (shown : String) : Reader.label shown ⟨.word "AS".toList :: .word label.toList :: ts,
      ps⟩ = .ok (label, ⟨ts, ps⟩) := by
    rw [Reader.label, bind_of_ok (word?_of_eq rfl), if_pos rfl, name_cons h.written.free,
      String.ofList_toList]
  -- After the argument there is one way to go on.
  have labelled (column' : Option String) : (do
        sign ")"
        let shown := fold.keyword ++ "(" ++ column'.getD "*" ++ ")"
        return Item.measure ⟨fold, column', ← Reader.label shown⟩ : Reader Item)
      ⟨.sign [')'] :: .word "AS".toList :: .word label.toList :: ts, ps⟩ =
        .ok (.measure ⟨fold, column', label⟩, ⟨ts, ps⟩) :=
    (bind_of_ok (sign_cons rfl)).trans (bind_of_ok (named _))
  rw [Measure.tokens, List.cons_append, List.cons_append, item_word, applied]
  cases column with
  | none => exact (bind_of_ok (sign?_of_eq (t := .sign ['*']) rfl)).trans (labelled none)
  | some c =>
    have argued : (some <$> argument : Reader (Option String))
        ⟨.word c.toList :: .sign [')'] :: .word "AS".toList :: .word label.toList :: ts, ps⟩ =
          .ok (some c, ⟨.sign [')'] :: .word "AS".toList :: .word label.toList :: ts, ps⟩) := by
      have read := @argument_tokens (.sign [')'] :: .word "AS".toList :: .word label.toList :: ts)
        ps _ (h.begins c rfl)
      rw [String.ofList_toList] at read
      exact bind_of_ok (f := fun c => pure (some c)) read
    refine (bind_of_ok (sign?_of_ne (by simp [Measure.argumentToken, isSign]))).trans ?_
    exact (bind_of_ok argued).trans (labelled (some c))

def shownTokens : Projection → List Token
  | .everything => [.sign ['*']]
  | .columns names => [Token.sign [',']].intercalate (names.map fun n => [.word n.toList])
  | .measures ms => [Token.sign [',']].intercalate (ms.map Measure.tokens)

inductive Shows : Projection → Prop
  | everything : Shows .everything
  | measures {ms : List Measure} (some : ms ≠ []) (named : ∀ m ∈ ms, m.Named) :
      Shows (.measures ms)

def measuredTokens : Item → List Token
  | .measure m => m.tokens
  | _ => []

theorem projection_measures {ms : List Measure} (some : ms ≠ []) (named : ∀ m ∈ ms, m.Named) :
    projection ⟨shownTokens (.measures ms) ++ .word "FROM".toList :: ts, ps⟩ =
      .ok (.some (ms.map .measure), ⟨.word "FROM".toList :: ts, ps⟩) := by
  have star : ∀ t ∈ (shownTokens (.measures ms) ++ .word "FROM".toList :: ts).head?,
      isSign "*" t = false := by
    obtain ⟨m, ms, rfl⟩ := List.exists_cons_of_ne_nil some
    cases ms <;> simp [shownTokens, Measure.tokens, isSign]
  have hitems : ∀ it ∈ ms.map Item.measure, ∀ ts ps,
      item ⟨measuredTokens it ++ ts, [] ++ ps⟩ = .ok (it, ⟨ts, ps⟩) :=
    List.forall_mem_map.mpr fun m hm ts ps => item_tokens (named m hm)
  have items := @listOf_items _ item measuredTokens (fun _ => []) (ms.map .measure)
    (by simpa using some) (by simp [measuredTokens, Measure.tokens]) hitems
    (.word "FROM".toList :: ts) ps (by simp [isSign])
  have unbound : (ms.map Item.measure).flatMap (fun _ => ([] : List Scalar)) = [] :=
    List.flatMap_eq_nil_iff.mpr fun _ _ => rfl
  have written : (ms.map Item.measure).map measuredTokens = ms.map Measure.tokens := by
    rw [List.map_map]
    rfl
  rw [unbound, List.nil_append, written] at items
  rw [projection, bind_of_ok (sign?_of_ne star), if_neg Bool.false_ne_true]
  exact bind_of_ok (f := fun items => pure (Option.some items)) items

theorem name_tokens {n : String} (free : isReserved n.toList = false) :
    name ⟨.word n.toList :: ts, ps⟩ = .ok (n, ⟨ts, ps⟩) := by
  rw [name_cons free, String.ofList_toList]

def clausesTokens (cs : List Condition) (order : Order) (page : Page) : List Token :=
  clauseTokens cs ++ (orderTokens order ++ pageTokens page)

theorem head_orderTokens (order : Order) (page : Page) :
    ∀ t ∈ (orderTokens order ++ pageTokens page).head?,
      ∀ w ∈ ["where", "and", "or"], isWord w t = false := by
  rw [orderTokens]
  split
  · intro t ht w hw
    exact (head_pageTokens page t ht).2 w (List.mem_append_left ["order"] hw)
  · rintro t ⟨⟩
    decide

section

variable {table : String} {cs : List Condition} {order : Order}
  (free : isReserved table.toList = false) (readable : ∀ c ∈ cs, c.Readable)
  (sorts : ∀ e ∈ order, Begins e.1.toList) (page : Page)

include free readable sorts

theorem selection_tokens {p : Projection} (shows : Shows p) :
    selection ⟨shownTokens p ++ .word "FROM".toList :: .word table.toList ::
        clausesTokens cs order page, Condition.operandsOfAll cs⟩ =
      .ok (.query p table (cs.map Condition.asRead) order page.asRead, ⟨[], []⟩) := by
  have clause := @Command.whereClause_tokens cs (orderTokens order ++ pageTokens page) [] readable
    (head_orderTokens order page)
  rw [List.append_nil] at clause
  -- Whatever is made of them, the clauses are read one after another.
  have clauses {α : Type} (f : String → List Condition → Order → Page → Reader α) :
      (do
        let table ← name
        let cs ← whereClause
        let order ← orderClause
        let page ← pageClause
        f table cs order page : Reader α)
          ⟨.word table.toList :: clausesTokens cs order page, Condition.operandsOfAll cs⟩ =
        f table (cs.map Condition.asRead) order page.asRead ⟨[], []⟩ := by
    rw [bind_of_ok (name_tokens free), clausesTokens, bind_of_ok clause,
      bind_of_ok (orderClause_tokens sorts page), bind_of_ok (pageClause_tokens page)]
  cases shows with
  | everything =>
    have whole (ts : List Token) (ps : List Scalar) :
        projection ⟨shownTokens .everything ++ ts, ps⟩ = .ok (none, ⟨ts, ps⟩) := rfl
    rw [selection, bind_of_ok (whole _ _), bind_of_ok (word?_of_eq rfl), if_pos rfl]
    exact clauses fun table cs order page => pure (Command.query .everything table cs order page)
  | @measures ms some named =>
    rw [selection, bind_of_ok (projection_measures some named), bind_of_ok (word?_of_eq rfl),
      if_pos rfl]
    refine (clauses _).trans ?_
    simp only [Command.projectionOf?_measures some]
    rfl

end

/-! ## Insertions -/

theorem insertion_tokens {table : String} {cells : List (String × Scalar)}
    (free : isReserved table.toList = false) (some : cells ≠ [])
    (written : ∀ cell ∈ cells, isReserved cell.1.toList = false) :
    insertion ⟨.word "INTO".toList :: .word table.toList :: (nameTokens (cells.map Prod.fst) ++
        .word "VALUES".toList :: Condition.markTokens cells.length), cells.map Prod.snd⟩ =
      .ok (.insert table cells, ⟨[], []⟩) := by
  have hnames : cells.map Prod.fst ≠ [] := by simpa using some
  have hmarks : cells.map Prod.snd ≠ [] := by simpa using some
  have columns := @listOf_items _ name (fun n => [.word n.toList]) (fun _ => []) _ hnames (by simp)
    (List.forall_mem_map.mpr fun cell hcell ts ps => name_tokens (written cell hcell))
    (.sign [')'] :: .word "VALUES".toList :: Condition.markTokens cells.length)
    (cells.map Prod.snd) (by simp [isSign])
  have unbound : (cells.map Prod.fst).flatMap (fun _ => ([] : List Scalar)) = [] :=
    List.flatMap_eq_nil_iff.mpr fun _ _ => rfl
  have operands := @listOf_mark [] [] _ hmarks
  rw [unbound, List.nil_append] at columns
  rw [List.length_map, List.append_nil] at operands
  have zipped : (cells.map Prod.fst).zip (cells.map Prod.snd) = cells :=
    (List.zip_of_prod rfl rfl).symm
  rw [insertion, bind_of_ok (word_cons rfl), bind_of_ok (name_tokens free), nameTokens,
    List.cons_append, bind_of_ok (sign_cons rfl), List.append_assoc, List.singleton_append,
    bind_of_ok columns, bind_of_ok (sign_cons rfl), bind_of_ok (word_cons rfl),
    Condition.markTokens, bind_of_ok (sign_cons rfl), bind_of_ok operands,
    bind_of_ok (sign_cons rfl), zipped]
  rfl

end Sql.Reader

/-! ## Commands -/

namespace Command

open Condition Sql.Reader

variable {table : String} {cells : List (String × Scalar)} {cs : List Condition} {order : Order}
  {page : Page} {p : Projection}

theorem spells_shown (shows : Shows p) : Spells p.text.toList (shownTokens p) := by
  cases shows with
  | everything =>
    intro rest hrest
    have star : lex ('*' :: rest) = .sign ['*'] :: lex rest :=
      lex_sign rest rfl rfl rfl (by simp [pairs])
    exact star
  | measures some named =>
    exact spells_separated lex_comma_blank (fun _ => apart_cons.mpr rfl)
      fun m hm => Measure.spells_text (named m hm).written

theorem tokens_selection (htable : PlainName table.toList) (plain : ∀ c ∈ cs, Plain c)
    (sorts : ∀ e ∈ order, PlainName e.1.toList) (shows : Shows p) :
    tokens (query p table cs order page).text =
      .word "SELECT".toList :: (shownTokens p ++ .word "FROM".toList :: .word table.toList ::
        clausesTokens cs order page) := by
  have htext : (query p table cs order page).text =
      "SELECT " ++ p.text ++ " FROM " ++ table ++ whereClause cs ++ following order.clause ++
        following page.clause := rfl
  have hchars (shown clause order page : String) :
      ("SELECT " ++ shown ++ " FROM " ++ table ++ clause ++ order ++ page).toList =
        "SELECT".toList ++ ' ' :: (shown.toList ++ ' ' :: ("FROM".toList ++ ' ' ::
          (table.toList ++ (clause.toList ++ (order.toList ++ page.toList))))) := by
    simp only [String.toList_append, List.append_assoc]
    rfl
  have hpage : Apart (following page.clause).toList := by
    simpa [whereClause, following] using apart_clauses [] "" page.clause
  have horder : Apart ((following order.clause).toList ++ (following page.clause).toList) := by
    simpa [whereClause] using apart_clauses [] order.clause page.clause
  rw [tokens_eq, htext, hchars, lex_wordBlank rfl, spells_shown shows _ (apart_cons.mpr rfl),
    lex_blank, lex_wordBlank rfl, lex_word htable (apart_clauses cs order.clause page.clause),
    spells_whereClause plain _ horder, spells_following (spells_order sorts) _ hpage,
    (spells_following (spells_page page)).lex_eq, clausesTokens]

/-- The text of a selection is read as a selection. -/
theorem read_selection (named : PlainName table.toList) (free : isReserved table.toList = false)
    (readable : ∀ c ∈ cs, Readable c)
    (sorts : ∀ e ∈ order, PlainName e.1.toList ∧ Begins e.1.toList) (shows : Shows p) :
    Sql.read (query p table cs order page).statement =
      .ok (some (query p table (cs.map asRead) order page.asRead)) := by
  refine read_of_command (tokens_selection named (fun c hc => (readable c hc).isPlain)
    (fun e he => (sorts e he).1) shows) ?_
  rw [command_select]
  exact selection_tokens free readable (fun e he => (sorts e he).2) page shows

/-- The text of an insertion is read as the insertion. -/
theorem read_insertion (named : PlainName table.toList) (free : isReserved table.toList = false)
    (some : cells ≠ [])
    (written : ∀ cell ∈ cells, PlainName cell.1.toList ∧ isReserved cell.1.toList = false) :
    Sql.read (insert table cells).statement = .ok (.some (insert table cells)) := by
  refine read_of_command (tokens_insert named fun cell hcell => (written cell hcell).1) ?_
  rw [command_insert]
  exact insertion_tokens free some fun cell hcell => (written cell hcell).2

theorem readAs_of_readable (named : PlainName table.toList)
    (free : isReserved table.toList = false) (readable : ∀ c ∈ cs, Readable c) :
    ReadAs table cs (cs.map asRead) :=
  ⟨named, free, fun c hc => (readable c hc).isPlain, whereClause_readable readable⟩

end Command

end Relata
