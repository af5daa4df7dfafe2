import Mathlib.Data.List.Lex

/-! # The order of a document

A place in a document is the way that leads to it: which of the parts to go to, and so on from
there. Places come in the order in which a document is written, a whole in front of its parts and
a part in front of the parts after it.
-/

namespace Relata.Document

variable {σ α : Type}

/-- What marked places say, in the order of the places. -/
def InOrder (found : List Nat → Option α) (as : List α) : Prop :=
  ∃ places : List (List Nat × α), places.Pairwise (fun a b => a.1 < b.1) ∧
    (∀ p a, (p, a) ∈ places ↔ found p = some a) ∧ places.map Prod.snd = as

/-- What the first of the marked places says. -/
def First (found : List Nat → Option α) (a : α) : Prop :=
  ∃ p, found p = some a ∧ ∀ p' a', found p' = some a' → p ≤ p'

theorem InOrder.first_iff {found : List Nat → Option α} {as : List α} (h : InOrder found as)
    {a : α} : First found a ↔ as.head? = some a := by
  obtain ⟨places, sorted, mem, rfl⟩ := h
  cases places with
  | nil =>
    have hnone (p : List Nat) (a : α) : found p ≠ some a := fun hp => nomatch (mem p a).mpr hp
    exact ⟨fun ⟨p, hp, _⟩ => (hnone p a hp).elim, fun h => nomatch h⟩
  | cons place places =>
    obtain ⟨q, b⟩ := place
    obtain ⟨first, -⟩ := List.pairwise_cons.mp sorted
    constructor
    · rintro ⟨p, hp, least⟩
      rcases List.mem_cons.mp ((mem p a).mpr hp) with heq | hlater
      · rw [(Prod.mk.inj heq).2]
        rfl
      · have hle : p ≤ q := least q b ((mem q b).mp List.mem_cons_self)
        exact (not_lt.mpr hle (first _ hlater)).elim
    · rintro ⟨⟩
      refine ⟨q, (mem q b).mp List.mem_cons_self, fun p' a' hp' => ?_⟩
      rcases List.mem_cons.mp ((mem p' a').mpr hp') with heq | hlater
      · exact (Prod.mk.inj heq).1.ge
      · exact le_of_lt (first _ hlater)

section

variable (parts : σ → List σ)

def at? : σ → List Nat → Option σ
  | s, [] => some s
  | s, i :: p => (parts s)[i]?.bind fun part => at? part p

/-- What a mark says of the places of a document. -/
def marked (mark : σ → Option α) (s : σ) (p : List Nat) : Option α :=
  (at? parts s p).bind mark

def markedIn (mark : σ → Option α) (ss : List σ) : List Nat → Option α
  | [] => none
  | i :: p => ss[i]?.bind fun s => marked parts mark s p

variable {parts} {mark : σ → Option α}

theorem inOrder_nil : InOrder (markedIn parts mark []) [] :=
  ⟨[], .nil, fun p a => by cases p <;> simp [markedIn], rfl⟩

def behind : List Nat → List Nat
  | [] => []
  | i :: p => (i + 1) :: p

theorem behind_lt {p q : List Nat} (h : p < q) : behind p < behind q := by
  cases p with
  | nil =>
    cases q with
    | nil => exact h
    | cons j q => exact List.nil_lt_cons _ _
  | cons i p =>
    cases q with
    | nil => exact nomatch h
    | cons j q =>
      rw [behind, behind, List.cons_lt_cons_iff, Nat.add_lt_add_iff_right, Nat.add_right_cancel_iff]
      exact List.cons_lt_cons_iff.mp h

theorem inOrder_cons {s : σ} {ss : List σ} {as bs : List α}
    (hs : InOrder (marked parts mark s) as) (hss : InOrder (markedIn parts mark ss) bs) :
    InOrder (markedIn parts mark (s :: ss)) (as ++ bs) := by
  obtain ⟨places, sorted, mem, rfl⟩ := hs
  obtain ⟨later, sorted', mem', rfl⟩ := hss
  have hway {p : List Nat} {a : α} (h : (p, a) ∈ later) : ∃ i q, p = i :: q := by
    cases p with
    | nil => exact nomatch (mem' [] a).mp h
    | cons i q => exact ⟨i, q, rfl⟩
  refine ⟨places.map (Prod.map (0 :: ·) id) ++ later.map (Prod.map behind id), ?_,
    fun p a => ?_, by simp [Function.comp_def]⟩
  · refine List.pairwise_append.mpr ⟨List.pairwise_map.mpr (sorted.imp fun h => ?_),
      List.pairwise_map.mpr (sorted'.imp behind_lt), fun x hx y hy => ?_⟩
    · exact List.cons_lt_cons_iff.mpr (.inr ⟨rfl, h⟩)
    · obtain ⟨x, -, rfl⟩ := List.mem_map.mp hx
      obtain ⟨⟨p, a⟩, hlater, rfl⟩ := List.mem_map.mp hy
      obtain ⟨i, q, rfl⟩ := hway hlater
      exact List.cons_lt_cons_iff.mpr (.inl (Nat.succ_pos i))
  · rw [List.mem_append, List.mem_map, List.mem_map]
    constructor
    · rintro (⟨⟨q, b⟩, h, hplace⟩ | ⟨⟨q, b⟩, h, hplace⟩)
      · cases hplace
        exact (mem q b).mp h
      · obtain ⟨i, q, rfl⟩ := hway h
        cases hplace
        exact (mem' (i :: q) b).mp h
    · intro h
      match p, h with
      | 0 :: q, h => exact .inl ⟨(q, a), (mem q a).mpr h, rfl⟩
      | (i + 1) :: q, h => exact .inr ⟨(i :: q, a), (mem' (i :: q) a).mpr h, rfl⟩

theorem inOrder_whole {s : σ} {as : List α} (h : InOrder (markedIn parts mark (parts s)) as) :
    InOrder (marked parts mark s) ((mark s).toList ++ as) := by
  obtain ⟨places, sorted, mem, rfl⟩ := h
  refine ⟨(mark s).toList.map (([], ·)) ++ places, ?_, fun p a => ?_,
    by simp [Function.comp_def]⟩
  · refine List.pairwise_append.mpr ⟨?_, sorted, fun x hx y hy => ?_⟩
    · cases mark s <;> simp
    · obtain ⟨a, -, rfl⟩ := List.mem_map.mp hx
      obtain ⟨p, b⟩ := y
      cases p with
      | nil => exact nomatch (mem [] b).mp hy
      | cons i p => exact List.nil_lt_cons i p
  · rw [List.mem_append, mem]
    cases p with
    | nil => simp [marked, markedIn, at?]
    | cons i p => simp [marked, markedIn, at?, Option.bind_assoc]

theorem inOrder_leaf {s : σ} (h : parts s = []) :
    InOrder (marked parts mark s) (mark s).toList := by
  have hnone : InOrder (markedIn parts mark (parts s)) [] := by
    rw [h]
    exact inOrder_nil
  have hown := inOrder_whole hnone
  rwa [List.append_nil] at hown

theorem inOrder_single {s : σ} {as : List α} (h : InOrder (marked parts mark s) as) :
    InOrder (markedIn parts mark [s]) as := by
  have hone := inOrder_cons h inOrder_nil
  rwa [List.append_nil] at hone

end

end Relata.Document
