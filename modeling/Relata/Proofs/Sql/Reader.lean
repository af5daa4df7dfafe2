import Mathlib.Data.List.Basic
import Relata.Sql.Reader

/-! # Steps of reading

What each reader does with the token that is next. A reader that is followed by another
one hands on what it has left.
-/

namespace Relata.Sql

namespace Reader

variable {α β : Type}

theorem bind_apply (r : Reader α) (f : α → Reader β) (i : Input) :
    (r >>= f) i = (r i).bind fun p => f p.1 p.2 :=
  rfl

theorem bind_of_ok {r : Reader α} {f : α → Reader β} {i j : Input} {a : α}
    (h : r i = .ok (a, j)) : (r >>= f) i = f a j := by
  rw [bind_apply, h]
  rfl

theorem pure_apply (a : α) (i : Input) : (pure a : Reader α) i = .ok (a, i) :=
  rfl

variable {t : Token} {ts : List Token} {ps : List Scalar}

theorem word?_cons (w : String) : word? w ⟨t :: ts, ps⟩ =
    .ok (isWord w t, ⟨if isWord w t then ts else t :: ts, ps⟩) := by
  change (if isWord w t then do skip; return true else return false : Reader Bool) _ = _
  cases isWord w t <;> rfl

theorem word?_of_eq {w : String} (h : isWord w t = true) :
    word? w ⟨t :: ts, ps⟩ = .ok (true, ⟨ts, ps⟩) := by
  rw [word?_cons, h]
  rfl

theorem word?_of_ne {w : String} (h : ∀ t ∈ ts.head?, isWord w t = false) :
    word? w ⟨ts, ps⟩ = .ok (false, ⟨ts, ps⟩) := by
  cases ts with
  | nil => rfl
  | cons t ts => rw [word?_cons, h t (by simp)]; rfl

theorem anyWord?_cons (ws : List String) : anyWord? ws ⟨t :: ts, ps⟩ =
    .ok (ws.any fun w => isWord w t, ⟨if ws.any fun w => isWord w t then ts else t :: ts, ps⟩) := by
  change (if ws.any fun w => isWord w t then do skip; return true else return false :
    Reader Bool) _ = _
  cases ws.any fun w => isWord w t <;> rfl

def isSign (s : String) : Token → Bool
  | .sign cs => cs = s.toList
  | _ => false

theorem sign?_cons (s : String) : sign? s ⟨t :: ts, ps⟩ =
    .ok (isSign s t, ⟨if isSign s t then ts else t :: ts, ps⟩) := by
  cases t with
  | sign cs =>
    change (if cs = s.toList then do skip; return true else return false : Reader Bool) _ = _
    by_cases h : cs = s.toList
    · simp only [h, if_true, isSign, decide_true]
      rfl
    · simp only [h, if_false, isSign, decide_false]
      rfl
  | word cs => rfl
  | number cs => rfl

theorem sign?_of_eq {s : String} (h : isSign s t = true) :
    sign? s ⟨t :: ts, ps⟩ = .ok (true, ⟨ts, ps⟩) := by
  rw [sign?_cons, h]
  rfl

theorem sign?_of_ne {s : String} (h : ∀ t ∈ ts.head?, isSign s t = false) :
    sign? s ⟨ts, ps⟩ = .ok (false, ⟨ts, ps⟩) := by
  cases ts with
  | nil => rfl
  | cons t ts => rw [sign?_cons, h t (by simp)]; rfl

theorem sign_cons {s : String} (h : isSign s t = true) :
    sign s ⟨t :: ts, ps⟩ = .ok ((), ⟨ts, ps⟩) := by
  rw [sign, bind_of_ok (sign?_of_eq h)]
  rfl

theorem mark_cons (p : Scalar) :
    mark ⟨.sign ['?'] :: ts, p :: ps⟩ = .ok (p, ⟨ts, ps⟩) :=
  rfl

theorem name_cons {cs : List Char} (h : isReserved cs = false) :
    name ⟨.word cs :: ts, ps⟩ = .ok (String.ofList cs, ⟨ts, ps⟩) := by
  change (if isReserved cs then refuse else do skip; return String.ofList cs : Reader String) _ = _
  rw [h]
  rfl

theorem isWord_of_not_isKeyword {w : String} {cs : List Char} (h : isKeyword cs = false)
    (hw : w ∈ reserved ++ ambiguous) : isWord w (.word cs) = false := by
  simp only [isKeyword, isReserved, Bool.or_eq_false_iff, List.contains_eq_mem,
    decide_eq_false_iff_not] at h
  simp only [isWord, beq_eq_false_iff_ne, ne_eq]
  intro he
  rw [he, String.ofList_toList] at h
  exact (List.mem_append.mp hw).elim h.1 h.2

theorem isWord_of_not_isReserved {w : String} {cs : List Char} (h : isReserved cs = false)
    (hw : w ∈ reserved) : isWord w (.word cs) = false := by
  simp only [isReserved, List.contains_eq_mem, decide_eq_false_iff_not] at h
  simp only [isWord, beq_eq_false_iff_ne, ne_eq]
  intro he
  rw [he, String.ofList_toList] at h
  exact h hw

theorem isReserved_of_not_isKeyword {cs : List Char} (h : isKeyword cs = false) :
    isReserved cs = false :=
  (Bool.or_eq_false_iff.mp h).1

theorem operand_cons {cs : List Char} (h : isKeyword cs = false) :
    operand ⟨.word cs :: ts, ps⟩ = .ok (String.ofList cs, ⟨ts, ps⟩) := by
  have hw (w : String) (hw : w ∈ reserved ++ ambiguous) : isWord w (.word cs) = false :=
    isWord_of_not_isKeyword h hw
  simp [operand, bind_apply, word?_cons, anyWord?_cons, Except.bind, hw "null" (by decide),
    hw "not" (by decide), hw "case" (by decide), hw "cast" (by decide), hw "exists" (by decide),
    hw "raise" (by decide), name_cons (isReserved_of_not_isKeyword h)]

theorem openedOperand_cons {cs : List Char} (h : isKeyword cs = false) :
    openedOperand ⟨.word cs :: ts, ps⟩ = .ok (String.ofList cs, ⟨ts, ps⟩) := by
  have hw (w : String) (hw : w ∈ reserved ++ ambiguous) : isWord w (.word cs) = false :=
    isWord_of_not_isKeyword h hw
  simp [openedOperand, bind_apply, word?_cons, Except.bind, hw "select" (by decide),
    hw "with" (by decide), hw "values" (by decide), operand_cons h]

theorem list_items {item : Reader α} {toks : α → List Token} {params : α → List Scalar}
    {as : List α} (some : as ≠ [])
    (hitem : ∀ a ∈ as, ∀ ts ps, item ⟨toks a ++ ts, params a ++ ps⟩ = .ok (a, ⟨ts, ps⟩))
    {rest : List Token} {more : List Scalar} (hr : ∀ t ∈ rest.head?, isSign "," t = false)
    {fuel : Nat} (hf : as.length ≤ fuel) :
    list item fuel
        ⟨[Token.sign [',']].intercalate (as.map toks) ++ rest, as.flatMap params ++ more⟩ =
      .ok (as, ⟨rest, more⟩) := by
  induction as generalizing fuel with
  | nil => exact absurd rfl some
  | cons a as ih =>
    obtain ⟨ha, has⟩ := List.forall_mem_cons.mp hitem
    obtain ⟨fuel, rfl⟩ : ∃ n, fuel = n + 1 := ⟨fuel - 1, by simp at hf; omega⟩
    cases as with
    | nil =>
      simp [list, bind_apply, ha, sign?_of_ne hr, Except.bind, pure_apply]
    | cons b as =>
      have hrest := ih (by simp) has (show (b :: as).length ≤ fuel by simpa using hf)
      simp only [List.map_cons, List.intercalate_cons_cons, List.flatMap_cons,
        List.append_assoc, List.cons_append, List.nil_append] at hrest ⊢
      rw [list, bind_of_ok (ha _ _), bind_of_ok (sign?_of_eq (by decide)), if_pos rfl,
        bind_of_ok hrest]
      rfl

theorem length_le_intercalate {t : Token} {tss : List (List Token)} (full : ∀ ts ∈ tss, ts ≠ []) :
    tss.length ≤ ([t].intercalate tss).length := by
  induction tss with
  | nil => simp
  | cons ts tss ih =>
    obtain ⟨hts, htss⟩ := List.forall_mem_cons.mp full
    have hpos := List.length_pos_of_ne_nil hts
    have hrest := ih htss
    cases tss with
    | nil => simpa using Nat.succ_le_of_lt hpos
    | cons us tss =>
      simp only [List.intercalate_cons_cons, List.length_append, List.length_cons,
        List.length_nil] at hrest ⊢
      omega

theorem listOf_items {item : Reader α} {toks : α → List Token} {params : α → List Scalar}
    {as : List α} (some : as ≠ []) (full : ∀ a ∈ as, toks a ≠ [])
    (hitem : ∀ a ∈ as, ∀ ts ps, item ⟨toks a ++ ts, params a ++ ps⟩ = .ok (a, ⟨ts, ps⟩))
    {rest : List Token} {more : List Scalar} (hr : ∀ t ∈ rest.head?, isSign "," t = false) :
    listOf item
        ⟨[Token.sign [',']].intercalate (as.map toks) ++ rest, as.flatMap params ++ more⟩ =
      .ok (as, ⟨rest, more⟩) := by
  have hfull : ∀ ts ∈ as.map toks, ts ≠ [] := List.forall_mem_map.mpr full
  have hlength := @length_le_intercalate (.sign [',']) _ hfull
  refine list_items some hitem hr ?_
  simp only [List.length_map, List.length_append] at hlength ⊢
  omega

end Reader

end Relata.Sql
