import Relata.Proofs.Sql.Token
import Relata.Proofs.Store.Condition

/-! # Conditions as tokens

The text of a condition is a row of tokens. Parts that are joined by a connective have
the tokens of the parts with the word of the connective between them, and a group of
conjunctions that all have to hold is written like one conjunction.
-/

namespace Relata

open Text Sql

namespace Sql

/-- Characters that are read as tokens, if nothing follows that goes on with the last one. -/
def Spells (cs : List Char) (ts : List Token) : Prop :=
  ∀ rest, Apart rest → lex (cs ++ rest) = ts ++ lex rest

theorem Spells.lex_eq {cs : List Char} {ts : List Token} (h : Spells cs ts) : lex cs = ts := by
  simpa [lex_nil] using h [] (by simp [Apart])

theorem spells_separated {α : Type} {separator : String} {t : Token} {text : α → String}
    {toks : α → List Token} (hs : ∀ rest, lex (separator.toList ++ rest) = t :: lex rest)
    (ha : ∀ rest, Apart (separator.toList ++ rest)) {as : List α}
    (h : ∀ a ∈ as, Spells (text a).toList (toks a)) :
    Spells (separated separator (as.map text)).toList ([t].intercalate (as.map toks)) := by
  induction as with
  | nil => exact fun rest _ => rfl
  | cons a as ih =>
    obtain ⟨hd, htl⟩ := List.forall_mem_cons.mp h
    cases as with
    | nil => simpa [separated] using hd
    | cons b as =>
      intro rest hr
      have := ih htl rest hr
      simp only [List.map_cons, separated, String.toList_append, List.append_assoc,
        List.intercalate_cons_cons] at this ⊢
      rw [hd _ (ha _), hs, this]
      rfl

end Sql

def Connective.token : Connective → Token
  | and => .word ['A', 'N', 'D']
  | or => .word ['O', 'R']

theorem Connective.lex_keyword (c : Connective) (rest : List Char) :
    lex (c.keyword.toList ++ rest) = c.token :: lex rest := by
  have h (w : List Char) (hw : PlainName w) :
      lex (' ' :: (w ++ ' ' :: rest)) = .word w :: lex rest := by
    rw [lex_blank, lex_word hw (apart_cons.mpr rfl), lex_blank]
  cases c with
  | and => exact h ['A', 'N', 'D'] (isPlainName_iff.mp rfl)
  | or => exact h ['O', 'R'] (isPlainName_iff.mp rfl)

theorem Connective.apart_keyword (c : Connective) (rest : List Char) :
    Apart (c.keyword.toList ++ rest) := by
  cases c <;> exact apart_cons.mpr rfl

def Comparison.token (how : Comparison) : Token :=
  .sign how.sign.toList

theorem Comparison.lex_sign (how : Comparison) (rest : List Char) :
    lex (' ' :: (how.sign.toList ++ (' ' :: rest))) = how.token :: lex rest := by
  have pair (a b : Char) (hb : isBlank a = false) (hn : startsName a = false)
      (hd : isDigit a = false) (hp : (a, b) ∈ pairs) :
      lex (a :: b :: ' ' :: rest) = .sign [a, b] :: lex rest := by
    rw [lex_pair _ hb hn hd hp, lex_blank]
  rw [lex_blank]
  cases how with
  | equal => exact lex_sign_blank rest rfl rfl rfl
  | less => exact lex_sign_blank rest rfl rfl rfl
  | greater => exact lex_sign_blank rest rfl rfl rfl
  | different => exact pair '!' '=' rfl rfl rfl (by decide)
  | atMost => exact pair '<' '=' rfl rfl rfl (by decide)
  | atLeast => exact pair '>' '=' rfl rfl rfl (by decide)

namespace Condition

def markTokens (count : Nat) : List Token :=
  .sign ['('] :: ([Token.sign [',']].intercalate (List.replicate count [.sign ['?']]) ++
    [.sign [')']])

mutual

def tokens : Condition → List Token
  | constant holds => [.number [if holds then '1' else '0'], .sign ['='], .number ['1']]
  | isNull column => [.word column.toList, .word ['I', 'S'], .word ['N', 'U', 'L', 'L']]
  | notNull column =>
    [.word column.toList, .word ['I', 'S'], .word ['N', 'O', 'T'], .word ['N', 'U', 'L', 'L']]
  | compare column how _ => [.word column.toList, how.token, .sign ['?']]
  | among column operands =>
    .word column.toList :: .word ['I', 'N'] :: markTokens operands.length
  | outside column operands =>
    .word column.toList :: .word ['N', 'O', 'T'] :: .word ['I', 'N'] :: markTokens operands.length
  | like column _ => [.word column.toList, .word ['L', 'I', 'K', 'E'], .sign ['?']]
  | group c parts =>
    .sign ['('] :: ([c.token].intercalate (tokensOfParts parts) ++ [.sign [')']])

def tokensOfEach : List Condition → List (List Token)
  | [] => []
  | c :: cs => tokens c :: tokensOfEach cs

def tokensOfParts : List (List Condition) → List (List Token)
  | [] => []
  | part :: parts => [Connective.and.token].intercalate (tokensOfEach part) :: tokensOfParts parts

end

def conjunctionTokens (cs : List Condition) : List Token :=
  [Connective.and.token].intercalate (cs.map tokens)

theorem tokensOfEach_eq (cs : List Condition) : tokensOfEach cs = cs.map tokens := by
  induction cs with
  | nil => rfl
  | cons c cs ih => rw [tokensOfEach, ih, List.map_cons]

theorem tokensOfParts_eq (parts : List (List Condition)) :
    tokensOfParts parts = parts.map conjunctionTokens := by
  induction parts with
  | nil => rfl
  | cons part parts ih => rw [tokensOfParts, ih, tokensOfEach_eq, List.map_cons, conjunctionTokens]

theorem two_le_length_tokens (c : Condition) : 2 ≤ (tokens c).length := by
  cases c <;> simp [tokens]

theorem conjunctionTokens_append {cs ds : List Condition} (hc : cs ≠ []) (hd : ds ≠ []) :
    conjunctionTokens (cs ++ ds) =
      conjunctionTokens cs ++ Connective.and.token :: conjunctionTokens ds := by
  induction cs with
  | nil => exact absurd rfl hc
  | cons c cs ih =>
    cases cs with
    | nil => simp [conjunctionTokens, List.intercalate_cons_of_ne_nil, hd]
    | cons b cs =>
      have := ih (by simp)
      simp only [conjunctionTokens, List.cons_append, List.map_cons,
        List.intercalate_cons_cons] at this ⊢
      rw [this]
      simp

theorem conjunctionTokens_ne_nil {cs : List Condition} (h : cs ≠ []) :
    conjunctionTokens cs ≠ [] := by
  obtain ⟨c, cs, rfl⟩ := List.exists_cons_of_ne_nil h
  have := two_le_length_tokens c
  have hc : tokens c ≠ [] := List.ne_nil_of_length_pos (by omega)
  cases cs with
  | nil => simpa [conjunctionTokens] using hc
  | cons d cs => simp [conjunctionTokens]

theorem flatten_ne_nil {parts : List (List Condition)} (some : parts ≠ [])
    (full : ∀ part ∈ parts, part ≠ []) : parts.flatten ≠ [] := by
  obtain ⟨part, hp⟩ := List.exists_mem_of_ne_nil _ some
  simp only [ne_eq, List.flatten_eq_nil_iff, not_forall]
  exact ⟨part, hp, full part hp⟩

theorem intercalate_conjunctionTokens {parts : List (List Condition)}
    (h : ∀ part ∈ parts, part ≠ []) :
    [Connective.and.token].intercalate (parts.map conjunctionTokens) =
      conjunctionTokens parts.flatten := by
  induction parts with
  | nil => rfl
  | cons part parts ih =>
    obtain ⟨hp, hps⟩ := List.forall_mem_cons.mp h
    cases parts with
    | nil => simp
    | cons other parts =>
      have hne := flatten_ne_nil (List.cons_ne_nil other parts) hps
      rw [List.flatten_cons, conjunctionTokens_append hp hne, ← ih hps]
      simp

/-- A name that can stand in an expression. -/
structure IsName (column : String) : Prop where
  plain : PlainName column.toList
  free : isKeyword column.toList = false

/-- Conditions whose names are as they have to be, without empty lists or groups. -/
inductive Written (isName : String → Prop) : Condition → Prop
  | constant (holds : Bool) : Written isName (constant holds)
  | isNull {column : String} (name : isName column) : Written isName (isNull column)
  | notNull {column : String} (name : isName column) : Written isName (notNull column)
  | compare {column : String} {how : Comparison} {operand : Scalar} (name : isName column) :
      Written isName (compare column how operand)
  | among {column : String} {operands : List Scalar} (name : isName column)
      (some : operands ≠ []) : Written isName (among column operands)
  | outside {column : String} {operands : List Scalar} (name : isName column)
      (some : operands ≠ []) : Written isName (outside column operands)
  | like {column pattern : String} (name : isName column) : Written isName (like column pattern)
  | group {c : Connective} {parts : List (List Condition)} (some : parts ≠ [])
      (full : ∀ part ∈ parts, part ≠ []) (inner : ∀ part ∈ parts, ∀ d ∈ part, Written isName d) :
      Written isName (group c parts)

abbrev Readable : Condition → Prop :=
  Written IsName

abbrev Plain : Condition → Prop :=
  Written fun column => PlainName column.toList

theorem Written.mono {p q : String → Prop} (h : ∀ column, p column → q column) {c : Condition}
    (hc : Written p c) : Written q c := by
  induction hc with
  | constant holds => exact .constant holds
  | isNull name => exact .isNull (h _ name)
  | notNull name => exact .notNull (h _ name)
  | compare name => exact .compare (h _ name)
  | among name some => exact .among (h _ name) some
  | outside name some => exact .outside (h _ name) some
  | like name => exact .like (h _ name)
  | group some full _ ih => exact .group some full ih

theorem Readable.isPlain {c : Condition} (hc : Readable c) : Plain c :=
  hc.mono fun _ name => name.plain

theorem lex_marks {count : Nat} (rest : List Char) :
    lex ((marks count).toList ++ ')' :: rest) =
      [Token.sign [',']].intercalate (List.replicate count [.sign ['?']]) ++
        lex (')' :: rest) := by
  have := @spells_separated Unit ", " (.sign [',']) (fun _ => "?") (fun _ => [.sign ['?']])
    (fun rest => (lex_comma _).trans (congrArg _ (lex_blank rest)))
    (fun _ => apart_cons.mpr rfl) (List.replicate count ()) (fun _ _ rest _ => lex_mark rest)
  simpa [marks] using this (')' :: rest) (apart_cons.mpr rfl)

theorem lex_openMarks {count : Nat} (rest : List Char) :
    lex ('(' :: ((marks count).toList ++ ')' :: rest)) = markTokens count ++ lex rest := by
  rw [lex_open, lex_marks, lex_close]
  simp [markTokens]

theorem lex_afterBlank {w : List Char} (hw : PlainName w) {rest : List Char} (hr : Apart rest) :
    lex (' ' :: (w ++ rest)) = .word w :: lex rest := by
  rw [lex_blank, lex_word hw hr]

/-- A condition is written with its tokens. -/
theorem spells_text {c : Condition} (hc : Plain c) : Spells (text c).toList (tokens c) := by
  have blank (rest : List Char) : Apart (' ' :: rest) := apart_cons.mpr rfl
  have words {w : List Char} (hw : isPlainName w = true) (rest : List Char) (hr : Apart rest) :
      lex (' ' :: (w ++ rest)) = .word w :: lex rest :=
    lex_afterBlank (isPlainName_iff.mp hw) hr
  induction c using Condition.induction with
  | constant holds =>
    intro rest hr
    have ho : lex ('1' :: rest) = .number ['1'] :: lex rest := by
      refine lex_digit rfl fun c hc => ?_
      have := hr c hc
      simp only [continuesName, Bool.or_eq_false_iff] at this
      exact this.1.2
    have hs (d : Char) (hd : isDigit d = true) :
        lex (d :: ' ' :: '=' :: ' ' :: '1' :: rest) =
          .number [d] :: .sign ['='] :: .number ['1'] :: lex rest := by
      rw [lex_digit hd (by simp; decide), lex_blank, lex_sign_blank _ rfl rfl rfl, ho]
    cases holds with
    | true => exact hs '1' rfl
    | false => exact hs '0' rfl
  | isNull column =>
    cases hc with | isNull name =>
    intro rest hr
    rw [text, String.toList_append, List.append_assoc]
    refine (lex_word name (blank _)).trans ?_
    exact congrArg _ ((words (w := ['I', 'S']) rfl _ (blank _)).trans
      (congrArg _ (words (w := ['N', 'U', 'L', 'L']) rfl rest hr)))
  | notNull column =>
    cases hc with | notNull name =>
    intro rest hr
    rw [text, String.toList_append, List.append_assoc]
    refine (lex_word name (blank _)).trans ?_
    exact congrArg _ ((words (w := ['I', 'S']) rfl _ (blank _)).trans
      (congrArg _ ((words (w := ['N', 'O', 'T']) rfl _ (blank _)).trans
        (congrArg _ (words (w := ['N', 'U', 'L', 'L']) rfl rest hr)))))
  | compare column how operand =>
    cases hc with | compare name =>
    intro rest hr
    have hs := how.lex_sign ('?' :: rest)
    rw [lex_mark] at hs
    simp only [text, String.toList_append, List.append_assoc]
    refine (lex_word name (blank _)).trans ?_
    exact congrArg _ hs
  | among column operands =>
    cases hc with | among name =>
    intro rest hr
    simp only [text, String.toList_append, List.append_assoc]
    refine (lex_word name (blank _)).trans ?_
    refine congrArg _ ((words (w := ['I', 'N']) rfl _ (blank _)).trans (congrArg _ ?_))
    exact (lex_blank _).trans (lex_openMarks rest)
  | outside column operands =>
    cases hc with | outside name =>
    intro rest hr
    simp only [text, String.toList_append, List.append_assoc]
    refine (lex_word name (blank _)).trans ?_
    refine congrArg _ ((words (w := ['N', 'O', 'T']) rfl _ (blank _)).trans (congrArg _ ?_))
    refine (words (w := ['I', 'N']) rfl _ (blank _)).trans (congrArg _ ?_)
    exact (lex_blank _).trans (lex_openMarks rest)
  | like column pattern =>
    cases hc with | like name =>
    intro rest hr
    rw [text, String.toList_append, List.append_assoc]
    refine (lex_word name (blank _)).trans ?_
    refine congrArg _ ((words (w := ['L', 'I', 'K', 'E']) rfl _ (blank _)).trans (congrArg _ ?_))
    exact (lex_blank _).trans (lex_mark rest)
  | group c parts ih =>
    cases hc with | group some full inner =>
    intro rest hr
    have hpart : ∀ part ∈ parts, Spells (conjunctionText part).toList (conjunctionTokens part) := by
      intro part hp
      rw [conjunctionText, texts_eq]
      exact spells_separated Connective.and.lex_keyword Connective.and.apart_keyword
        fun d hd => ih part hp d hd (inner part hp d hd)
    have := spells_separated c.lex_keyword c.apart_keyword hpart (')' :: rest) (apart_cons.mpr rfl)
    rw [lex_close] at this
    simp only [text, partTexts_eq, String.toList_append, List.append_assoc]
    refine (lex_open _).trans ?_
    rw [tokens, tokensOfParts_eq, List.cons_append, List.append_assoc]
    exact congrArg _ this

theorem spells_conjunctionText {cs : List Condition} (h : ∀ c ∈ cs, Plain c) :
    Spells (conjunctionText cs).toList (conjunctionTokens cs) := by
  rw [conjunctionText, texts_eq]
  exact spells_separated Connective.and.lex_keyword Connective.and.apart_keyword
    fun c hc => spells_text (h c hc)

theorem tokens_conjunctionText {cs : List Condition} (h : ∀ c ∈ cs, Plain c) :
    Sql.tokens (conjunctionText cs) = conjunctionTokens cs := by
  rw [tokens_eq]
  exact (spells_conjunctionText h).lex_eq

end Condition

end Relata
