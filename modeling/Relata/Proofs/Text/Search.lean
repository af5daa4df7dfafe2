import Relata.Text.Search
import Mathlib.Data.List.Infix

/-! # Places of a text in another

A text is cut at the first place at which a pattern occurs in it. What stands behind that place,
up to the next one if there is one, is a piece of it that the text has once or not at all.
-/

namespace Relata.Text

variable {pattern cs before after : List Char}

/-- The pattern occurs between these texts, and nowhere further to the front. -/
structure CutAt (pattern cs before after : List Char) : Prop where
  whole : cs = before ++ (pattern ++ after)
  first : ∀ b a, cs = b ++ (pattern ++ a) → before.length ≤ b.length

theorem CutAt.isInfix (h : CutAt pattern cs before after) : pattern <:+: cs :=
  ⟨before, after, by simp [h.whole]⟩

theorem CutAt.unique {b a : List Char} (h : CutAt pattern cs before after)
    (h' : CutAt pattern cs b a) : b = before ∧ a = after := by
  have hlength : b.length = before.length := by
    have := h.first _ _ h'.whole
    have := h'.first _ _ h.whole
    omega
  obtain ⟨hfront, hback⟩ := List.append_inj (h'.whole.symm.trans h.whole) hlength
  exact ⟨hfront, List.append_cancel_left hback⟩

theorem cutAt_nil (cs : List Char) : CutAt pattern (pattern ++ cs) [] cs := by
  constructor
  · rfl
  · intro b a _
    exact Nat.zero_le _

theorem cutAt_cons {c : Char} (h : ¬ pattern <+: c :: cs) :
    CutAt pattern (c :: cs) (c :: before) after ↔ CutAt pattern cs before after := by
  constructor
  · intro hcut
    constructor
    · simpa using hcut.whole
    · intro b a hb
      have := hcut.first (c :: b) a (by simp [hb])
      simpa using this
  · intro hcut
    constructor
    · simp [hcut.whole]
    · intro b a hb
      cases b with
      | nil => exact absurd ⟨a, hb.symm⟩ h
      | cons d b =>
        obtain ⟨-, hrest⟩ := List.cons.inj hb
        have := hcut.first b a hrest
        simpa using this

section

variable (filled : pattern ≠ [])

include filled

theorem cut?_eq_some_iff :
    cut? pattern cs = some (before, after) ↔ CutAt pattern cs before after := by
  induction cs generalizing before with
  | nil =>
    constructor
    · intro h
      cases h
    · intro h
      have := h.whole
      simp_all
  | cons c cs ih =>
    unfold cut?
    by_cases hfront : pattern <+: c :: cs
    · rw [if_pos (by simpa using hfront)]
      obtain ⟨rest, hrest⟩ := hfront
      rw [← hrest, List.drop_left]
      constructor
      · intro h
        cases h
        exact cutAt_nil _
      · intro h
        obtain ⟨rfl, rfl⟩ := (cutAt_nil rest).unique h
        rfl
    · rw [if_neg (by simpa using hfront)]
      simp only [Option.map_eq_some_iff, Prod.exists]
      constructor
      · rintro ⟨b, a, hcut, h⟩
        cases h
        exact (cutAt_cons hfront).mpr (ih.mp hcut)
      · intro h
        cases before with
        | nil => exact absurd ⟨after, h.whole.symm⟩ hfront
        | cons d before =>
          obtain ⟨rfl, -⟩ := List.cons.inj h.whole
          exact ⟨before, after, ih.mpr ((cutAt_cons hfront).mp h), rfl⟩

theorem cut?_eq_none_iff : cut? pattern cs = none ↔ ¬ pattern <:+: cs := by
  constructor
  · intro hnone hinfix
    induction cs with
    | nil => exact filled (List.infix_nil.mp hinfix)
    | cons c cs ih =>
      unfold cut? at hnone
      split at hnone
      · cases hnone
      · next hfront =>
        rw [Option.map_eq_none_iff] at hnone
        rcases List.infix_cons_iff.mp hinfix with h | h
        · exact hfront (by simpa using h)
        · exact ih hnone h
  · intro h
    cases hcut : cut? pattern cs with
    | none => rfl
    | some _ => exact absurd ((cut?_eq_some_iff filled).mp hcut).isInfix h

end

/-! ## Pieces -/

/-- What stands behind the first place of a pattern: the rest of the text, or what is in front of
the next place. -/
inductive Piece (pattern cs : List Char) : List Char → Prop
  | last {before piece : List Char} (cut : CutAt pattern cs before piece)
      (free : ¬ pattern <:+: piece) : Piece pattern cs piece
  | between {before rest piece after : List Char} (cut : CutAt pattern cs before rest)
      (next : CutAt pattern rest piece after) : Piece pattern cs piece

theorem occurs_iff {pattern text : String} (filled : pattern.toList ≠ []) :
    occurs pattern text = true ↔ pattern.toList <:+: text.toList := by
  rw [occurs, Option.isSome_iff_ne_none, Ne, cut?_eq_none_iff filled, not_not]

theorem secondPiece?_eq_none_iff {pattern text : String} (filled : pattern.toList ≠ []) :
    secondPiece? pattern text = none ↔ ¬ pattern.toList <:+: text.toList := by
  rw [secondPiece?, Option.map_eq_none_iff, cut?_eq_none_iff filled]

theorem secondPiece?_eq_some_iff {pattern text piece : String} (filled : pattern.toList ≠ []) :
    secondPiece? pattern text = some piece ↔
      Piece pattern.toList text.toList piece.toList := by
  unfold secondPiece?
  simp only [Option.map_eq_some_iff, Prod.exists]
  constructor
  · rintro ⟨before, rest, hcut, h⟩
    have hcut := (cut?_eq_some_iff filled).mp hcut
    split at h
    · next next after hnext =>
      subst h
      rw [String.toList_ofList]
      exact .between hcut ((cut?_eq_some_iff filled).mp hnext)
    · next hnone =>
      subst h
      rw [String.toList_ofList]
      exact .last hcut ((cut?_eq_none_iff filled).mp hnone)
  · intro h
    cases h with
    | last cut free =>
      refine ⟨_, _, (cut?_eq_some_iff filled).mpr cut, ?_⟩
      rw [(cut?_eq_none_iff filled).mpr free]
      exact String.ofList_toList
    | between cut next =>
      refine ⟨_, _, (cut?_eq_some_iff filled).mpr cut, ?_⟩
      rw [(cut?_eq_some_iff filled).mpr next]
      exact String.ofList_toList

end Relata.Text
