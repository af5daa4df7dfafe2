import Relata.Proofs.Result
import Relata.Proofs.Sql.Reader
import Relata.Proofs.Sql.Token

/-! # The word of a statement

The first word of a statement says whether it reads or writes, or ends a transaction. A
command on data is written with its word, and whatever else the text of it may be read
as, it is a command with the same word.
-/

namespace Relata

open Sql Text

def Command.verb? : Command → Option String
  | query .. => some "SELECT"
  | values .. => some "SELECT"
  | insert .. => some "INSERT"
  | update .. => some "UPDATE"
  | delete .. => some "DELETE"
  | control _ => none

namespace Sql.Reader

variable {α β : Type}

theorem bind_ok {x : Reader α} {f : α → Reader β} {i k : Input} {b : β}
    (h : (x >>= f) i = .ok (b, k)) : ∃ a j, x i = .ok (a, j) ∧ f a j = .ok (b, k) := by
  obtain ⟨⟨a, j⟩, hx, hf⟩ := bind_eq_ok.mp h
  exact ⟨a, j, hx, hf⟩

/-- A reader all of whose results have a property. -/
def Yields (P : α → Prop) (x : Reader α) : Prop :=
  ∀ i a j, x i = .ok (a, j) → P a

variable {P : α → Prop}

theorem yields_pure {a : α} (h : P a) : Yields P (pure a) := by
  intro i b j hb
  cases hb
  exact h

theorem yields_refuse : Yields P refuse := by
  intro i a j h
  unfold refuse at h
  split at h <;> cases h

theorem Yields.bind {Q : β → Prop} {x : Reader β} {f : β → Reader α} (first : Yields Q x)
    (next : ∀ b, Q b → Yields P (f b)) : Yields P (x >>= f) := by
  intro i a k ha
  obtain ⟨b, j, hx, hf⟩ := bind_ok ha
  exact next b (first i b j hx) j a k hf

theorem yields_bind {x : Reader β} {f : β → Reader α} (h : ∀ b, Yields P (f b)) :
    Yields P (x >>= f) :=
  Yields.bind (Q := fun _ => True) (fun _ _ _ _ => trivial) fun b _ => h b

theorem yields_ite {b : Bool} {x y : Reader α} (hx : Yields P x) (hy : Yields P y) :
    Yields P (if b then x else y) := by
  cases b with
  | true => exact hx
  | false => exact hy

theorem yields_selection : Yields (fun k => k.verb? = some "SELECT") selection := by
  refine yields_bind fun shown => yields_bind fun hasTable => yields_ite ?_ ?_
  · refine yields_bind fun table => yields_bind fun cs => yields_bind fun order =>
      yields_bind fun page => ?_
    split
    · exact yields_pure rfl
    · split
      · exact yields_pure rfl
      · exact yields_refuse
  · split
    · exact yields_pure rfl
    · exact yields_refuse

theorem yields_insertion : Yields (fun k => k.verb? = some "INSERT") insertion :=
  yields_bind fun _ => yields_bind fun _ => yields_bind fun _ => yields_bind fun _ =>
    yields_bind fun _ => yields_bind fun _ => yields_bind fun _ => yields_bind fun _ =>
      yields_bind fun _ => yields_pure rfl

def changing : Reader Command := do
  if ← word? "or" then refuse
  let table ← name
  word "set"
  let cells ← listOf assigned
  return .update table cells (← whereClause)

theorem yields_changing : Yields (fun k => k.verb? = some "UPDATE") changing := by
  refine yields_bind fun isOr => ?_
  cases isOr with
  | true => exact yields_bind fun _ => yields_bind fun _ => yields_bind fun _ =>
      yields_bind fun _ => yields_bind fun _ => yields_pure rfl
  | false => exact yields_bind fun _ => yields_bind fun _ =>
      yields_bind fun _ => yields_bind fun _ => yields_pure rfl

def removing : Reader Command := do
  word "from"
  let table ← name
  return .delete table (← whereClause)

theorem yields_removing : Yields (fun k => k.verb? = some "DELETE") removing :=
  yields_bind fun _ => yields_bind fun _ => yields_bind fun _ => yields_pure rfl

section

variable {ts : List Token} {ps : List Scalar}

theorem command_select : command ⟨.word "SELECT".toList :: ts, ps⟩ = selection ⟨ts, ps⟩ :=
  rfl

theorem command_insert : command ⟨.word "INSERT".toList :: ts, ps⟩ = insertion ⟨ts, ps⟩ :=
  rfl

theorem command_update : command ⟨.word "UPDATE".toList :: ts, ps⟩ = changing ⟨ts, ps⟩ :=
  rfl

theorem command_delete : command ⟨.word "DELETE".toList :: ts, ps⟩ = removing ⟨ts, ps⟩ :=
  rfl

end

theorem verb_of_command {ts : List Token} {ps : List Scalar} {k : Command} {j : Input}
    {verb : String} (hv : verb ∈ ["SELECT", "INSERT", "UPDATE", "DELETE"])
    (h : command ⟨.word verb.toList :: ts, ps⟩ = .ok (k, j)) : k.verb? = some verb := by
  simp only [List.mem_cons, List.not_mem_nil, or_false] at hv
  obtain rfl | rfl | rfl | rfl := hv
  · rw [command_select] at h
    exact yields_selection _ k j h
  · rw [command_insert] at h
    exact yields_insertion _ k j h
  · rw [command_update] at h
    exact yields_changing _ k j h
  · rw [command_delete] at h
    exact yields_removing _ k j h

end Sql.Reader

theorem Command.verb_mem {k : Command} {verb : String} (h : k.verb? = some verb) :
    verb ∈ ["SELECT", "INSERT", "UPDATE", "DELETE"] := by
  cases k <;> cases h <;> simp

theorem Command.toList_text {k : Command} {verb : String} (h : k.verb? = some verb) :
    ∃ cs, k.text.toList = verb.toList ++ ' ' :: cs := by
  -- What a text begins with, a longer one begins with, too.
  have more {w s : String} (t : String) (hs : ∃ cs, s.toList = w.toList ++ ' ' :: cs) :
      ∃ cs, (s ++ t).toList = w.toList ++ ' ' :: cs := by
    obtain ⟨cs, hcs⟩ := hs
    rw [String.toList_append, hcs, List.append_assoc]
    exact ⟨_, rfl⟩
  cases k with
  | control c => cases h
  | query p table cs order page =>
    cases h
    exact more _ (more _ (more _ (more _ (more _ (more _ ⟨[], rfl⟩)))))
  | values cells =>
    cases h
    exact more _ ⟨[], rfl⟩
  | insert table cells =>
    cases h
    exact more _ (more _ (more _ (more _ (more _ (more _ ⟨"INTO ".toList, rfl⟩)))))
  | update table cells cs =>
    cases h
    exact more _ (more _ (more _ (more _ ⟨[], rfl⟩)))
  | delete table cs =>
    cases h
    exact more _ (more _ ⟨"FROM ".toList, rfl⟩)

theorem Command.tokens_text {k : Command} {verb : String} (h : k.verb? = some verb) :
    ∃ ts, tokens k.text = .word verb.toList :: ts := by
  obtain ⟨cs, hcs⟩ := toList_text h
  have hv := verb_mem h
  have hname : isPlainName verb.toList = true := by
    simp only [List.mem_cons, List.not_mem_nil, or_false] at hv
    obtain rfl | rfl | rfl | rfl := hv <;> rfl
  rw [tokens_eq, hcs, lex_word (isPlainName_iff.mp hname) (apart_cons.mpr rfl)]
  exact ⟨_, rfl⟩

theorem Command.read_ne_none {k : Command} {verb : String} (h : k.verb? = some verb) :
    Sql.read k.statement ≠ .ok none := by
  obtain ⟨ts, hts⟩ := tokens_text h
  rw [Sql.read, statement, hts]
  intro hr
  obtain ⟨_, _, hc⟩ := map_eq_ok.mp hr
  cases hc

/-- What a statement is read as is the command that its tokens begin with. -/
theorem Sql.command_of_read {s : Statement} {k : Command} (h : Sql.read s = .ok (some k)) :
    ∃ j, Reader.command ⟨tokens s.sql, s.params⟩ = .ok (k, j) := by
  rw [Sql.read] at h
  split at h
  · cases h
  · obtain ⟨⟨c, j⟩, hwhole, hc⟩ := map_eq_ok.mp h
    cases hc
    obtain ⟨c, j', hcommand, hrest⟩ := Reader.bind_ok hwhole
    have hk : k = c := by
      suffices hend : Reader.Yields (fun k => k = c) _ from hend _ _ _ hrest
      refine Reader.yields_bind fun _ => Reader.yields_bind fun t => ?_
      cases t with
      | none => exact Reader.yields_pure rfl
      | some t => exact Reader.yields_refuse
    cases hk
    exact ⟨j', hcommand⟩

/-- Whatever the text of a command on data is read as, it is a command with its word. -/
theorem Command.verb_of_read {k k' : Command} {verb : String} (h : k.verb? = some verb)
    (hr : Sql.read k.statement = .ok (some k')) : k'.verb? = some verb := by
  obtain ⟨ts, hts⟩ := tokens_text h
  obtain ⟨j, hcommand⟩ := command_of_read hr
  rw [statement, hts] at hcommand
  exact Reader.verb_of_command (verb_mem h) hcommand

end Relata
