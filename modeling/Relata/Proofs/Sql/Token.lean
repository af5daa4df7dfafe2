import Mathlib.Data.List.Basic
import Mathlib.Tactic.ByContra
import Relata.Sql.Token

/-! # Tokens of written texts

A text that is written in parts has the tokens of its parts, as long as no word is
followed by a character that goes on with it.
-/

namespace Relata.Sql

open Text

theorem length_dropWhile_le {α : Type} (p : α → Bool) (as : List α) :
    (as.dropWhile p).length ≤ as.length := by
  have := congrArg List.length (List.takeWhile_append_dropWhile (p := p) (l := as))
  simp only [List.length_append] at this
  omega

theorem tokensFrom_of_le {n m : Nat} {cs : List Char} (hn : cs.length ≤ n) (hm : cs.length ≤ m) :
    tokensFrom n cs = tokensFrom m cs := by
  induction n generalizing m cs with
  | zero =>
    obtain rfl := List.eq_nil_of_length_eq_zero (Nat.le_zero.mp hn)
    cases m <;> rfl
  | succ n ih =>
    cases cs with
    | nil => cases m <;> rfl
    | cons c cs =>
      cases m with
      | zero => simp at hm
      | succ m =>
        simp only [List.length_cons, Nat.add_le_add_iff_right] at hn hm
        have hrest (p : Char → Bool) :
            tokensFrom n (cs.dropWhile p) = tokensFrom m (cs.dropWhile p) :=
          ih (Nat.le_trans (length_dropWhile_le p cs) hn)
            (Nat.le_trans (length_dropWhile_le p cs) hm)
        cases cs with
        | nil => simp only [tokensFrom, hrest, ih hn hm]
        | cons d cs =>
          have hcs : tokensFrom n cs = tokensFrom m cs := by
            simp only [List.length_cons] at hn hm
            exact ih (by omega) (by omega)
          simp only [tokensFrom, hrest, ih hn hm, hcs]

def lex (cs : List Char) : List Token :=
  tokensFrom cs.length cs

theorem tokens_eq (text : String) : tokens text = lex text.toList := by
  rw [tokens, lex, String.length_toList]
  exact tokensFrom_of_le (by rw [String.length_toList]; omega) (Nat.le_of_eq String.length_toList)

theorem lex_nil : lex [] = [] :=
  rfl

theorem lex_blank (cs : List Char) : lex (' ' :: cs) = lex cs := by
  simp [lex, tokensFrom, show isBlank ' ' = true from rfl]

/-- What may follow a word or a number. -/
def Apart (rest : List Char) : Prop :=
  ∀ c ∈ rest.head?, continuesName c = false

theorem apart_cons {c : Char} {rest : List Char} : Apart (c :: rest) ↔ continuesName c = false := by
  simp [Apart]

theorem takeWhile_append_of_head {α : Type} {p : α → Bool} {w rest : List α}
    (hw : ∀ a ∈ w, p a = true) (hr : ∀ a ∈ rest.head?, p a = false) :
    (w ++ rest).takeWhile p = w := by
  rw [List.takeWhile_append_of_pos hw]
  cases rest with
  | nil => simp
  | cons a rest => simp [hr a (by simp)]

theorem dropWhile_append_of_head {α : Type} {p : α → Bool} {w rest : List α}
    (hw : ∀ a ∈ w, p a = true) (hr : ∀ a ∈ rest.head?, p a = false) :
    (w ++ rest).dropWhile p = rest := by
  rw [List.dropWhile_append_of_pos hw]
  cases rest with
  | nil => simp
  | cons a rest => simp [hr a (by simp)]

theorem isBlank_of_startsName {c : Char} (h : startsName c = true) : isBlank c = false := by
  by_contra hb
  simp only [isBlank, Bool.not_eq_false, Bool.or_eq_true, beq_iff_eq] at hb
  rcases hb with (((rfl | rfl) | rfl) | rfl) | rfl <;> exact absurd h (by decide)

theorem lex_word {w rest : List Char} (hw : PlainName w) (hr : Apart rest) :
    lex (w ++ rest) = .word w :: lex rest := by
  obtain @⟨c, w, hc, hw⟩ := hw
  simp only [lex, List.cons_append, List.length_cons, tokensFrom, isBlank_of_startsName hc, hc,
    Bool.false_eq_true, if_false, if_true]
  rw [takeWhile_append_of_head hw hr, dropWhile_append_of_head hw hr]
  exact congrArg _ (tokensFrom_of_le (by simp) (Nat.le_refl _))

theorem isBlank_of_isDigit {c : Char} (h : isDigit c = true) : isBlank c = false := by
  by_contra hb
  simp only [isBlank, Bool.not_eq_false, Bool.or_eq_true, beq_iff_eq] at hb
  rcases hb with (((rfl | rfl) | rfl) | rfl) | rfl <;> exact absurd h (by decide)

theorem startsName_of_isDigit {c : Char} (h : isDigit c = true) : startsName c = false := by
  by_contra hs
  simp only [startsName, isLetter, isDigit, Bool.not_eq_false, Bool.or_eq_true, Bool.and_eq_true,
    decide_eq_true_eq, Char.le_def, UInt32.le_iff_toNat_le, beq_iff_eq] at h hs
  have h9 : ('9' : Char).val.toNat = 57 := rfl
  have ha : ('a' : Char).val.toNat = 97 := rfl
  have hA : ('A' : Char).val.toNat = 65 := rfl
  rcases hs with (⟨hs, -⟩ | ⟨hs, -⟩) | rfl
  · omega
  · omega
  · exact absurd h.2 (by decide)

theorem lex_digit {d : Char} {rest : List Char} (hd : isDigit d = true)
    (hr : ∀ c ∈ rest.head?, isDigit c = false) : lex (d :: rest) = .number [d] :: lex rest := by
  have ht := takeWhile_append_of_head (w := []) (p := isDigit) (by simp) hr
  have hd' := dropWhile_append_of_head (w := []) (p := isDigit) (by simp) hr
  simp only [List.nil_append] at ht hd'
  simp only [lex, List.length_cons, tokensFrom, isBlank_of_isDigit hd, startsName_of_isDigit hd, hd,
    ht, hd', Bool.false_eq_true, if_false, if_true]

theorem lex_sign {s : Char} (rest : List Char) (hb : isBlank s = false)
    (hn : startsName s = false) (hd : isDigit s = false) (hp : ∀ d, (s, d) ∉ pairs) :
    lex (s :: rest) = .sign [s] :: lex rest := by
  cases rest with
  | nil => simp [lex, tokensFrom, hb, hn, hd]
  | cons d rest => simp [lex, tokensFrom, hb, hn, hd, hp]

theorem lex_sign_blank {s : Char} (rest : List Char) (hb : isBlank s = false)
    (hn : startsName s = false) (hd : isDigit s = false) :
    lex (s :: ' ' :: rest) = .sign [s] :: lex rest := by
  have hp : (s, ' ') ∉ pairs := by simp [pairs]
  rw [← lex_blank rest]
  simp [lex, tokensFrom, hb, hn, hd, hp]

theorem lex_pair {s d : Char} (rest : List Char) (hb : isBlank s = false)
    (hn : startsName s = false) (hd : isDigit s = false) (hp : (s, d) ∈ pairs) :
    lex (s :: d :: rest) = .sign [s, d] :: lex rest := by
  simp only [lex, List.length_cons, tokensFrom, hb, hn, hd, hp, Bool.false_eq_true, if_false,
    if_true]
  exact congrArg _ (tokensFrom_of_le (by simp) (Nat.le_refl _))

theorem lex_open (rest : List Char) : lex ('(' :: rest) = .sign ['('] :: lex rest :=
  lex_sign rest rfl rfl rfl (by simp [pairs])

theorem lex_close (rest : List Char) : lex (')' :: rest) = .sign [')'] :: lex rest :=
  lex_sign rest rfl rfl rfl (by simp [pairs])

theorem lex_comma (rest : List Char) : lex (',' :: rest) = .sign [','] :: lex rest :=
  lex_sign rest rfl rfl rfl (by simp [pairs])

theorem lex_mark (rest : List Char) : lex ('?' :: rest) = .sign ['?'] :: lex rest :=
  lex_sign rest rfl rfl rfl (by simp [pairs])

end Relata.Sql
