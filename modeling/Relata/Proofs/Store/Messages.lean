import Relata.Proofs.Text.Search
import Relata.Store.Failure

/-! # Messages of failures

A failure that stands for what the store itself reports has the message of the report, unless it
is taken for a duplicate. Of such a message only the piece that names a column is left, so that
the messages of two duplicates are told apart exactly if their pieces are.
-/

namespace Relata.Report

/-- A report that is taken for one of a duplicate, by its kind or by its words. -/
def OfDuplicate (kind : Violation) (message : String) : Prop :=
  kind = .unique ∨ "UNIQUE constraint failed".toList <:+: message.toList

inductive Holds (message : String) : Failure → Prop
  | foreignKey : Holds message (.foreignKey message)
  | busy : Holds message (.busy message)
  | transaction : Holds message (.transaction message)
  | query : Holds message (.query message)

/-- What is left of the message of a duplicate: what stands behind the words that announce a
column, up to where they are said again. -/
inductive Leaves (message : String) : String → Prop
  | column {piece : String}
      (named : Text.Piece "UNIQUE constraint failed: ".toList message.toList piece.toList) :
      Leaves message piece
  | unknown (unnamed : ¬ "UNIQUE constraint failed: ".toList <:+: message.toList) :
      Leaves message "unknown"

theorem duplicateField_eq_iff {message column : String} :
    duplicateField message = column ↔ Leaves message column := by
  have hfilled : "UNIQUE constraint failed: ".toList ≠ [] := by decide
  unfold duplicateField
  constructor
  · rintro rfl
    cases h : Text.secondPiece? "UNIQUE constraint failed: " message with
    | none => exact .unknown ((Text.secondPiece?_eq_none_iff hfilled).mp h)
    | some piece => exact .column ((Text.secondPiece?_eq_some_iff hfilled).mp h)
  · intro h
    cases h with
    | column named => rw [(Text.secondPiece?_eq_some_iff hfilled).mpr named, Option.getD_some]
    | unknown unnamed => rw [(Text.secondPiece?_eq_none_iff hfilled).mpr unnamed, Option.getD_none]

variable {code : Option String} {kind : Violation} {message : String}

theorem failure_of_duplicate (h : OfDuplicate kind message) :
    (database message code kind).failure = .duplicate (duplicateField message) "unknown" := by
  have hwords : "UNIQUE constraint failed".toList ≠ [] := by decide
  apply if_pos
  simpa [OfDuplicate, Text.occurs_iff hwords] using h

theorem holds_of_not_duplicate (h : ¬ OfDuplicate kind message) :
    Holds message (database message code kind).failure := by
  have hwords : "UNIQUE constraint failed".toList ≠ [] := by decide
  have hother : ¬ (kind = .unique || Text.occurs "UNIQUE constraint failed" message) = true := by
    simpa [OfDuplicate, Text.occurs_iff hwords] using h
  show Holds message (ofDatabase message code kind)
  unfold ofDatabase
  rw [if_neg hother]
  split
  · exact .foreignKey
  · split
    · exact .busy
    · split
      · exact .transaction
      · exact .query

theorem holds_failure_iff :
    Holds message (database message code kind).failure ↔ ¬ OfDuplicate kind message := by
  constructor
  · intro h hduplicate
    rw [failure_of_duplicate hduplicate] at h
    cases h
  · exact holds_of_not_duplicate

theorem Holds.eq {other : String} {f : Failure} (h : Holds message f) (h' : Holds other f) :
    message = other := by
  cases h <;> cases h' <;> rfl

/-- A report of the store is turned into a failure that has its message, unless it is taken for a
duplicate, of which the named column is left. Two messages are turned into the same failure only
if they are the same, or are those of duplicates of which the same is left. -/
theorem message_kept (code : Option String) (kind : Violation) :
    (∀ m, Holds m (database m code kind).failure ↔ ¬ OfDuplicate kind m) ∧
      (∀ m column, (database m code kind).failure = .duplicate column "unknown" ↔
        OfDuplicate kind m ∧ Leaves m column) ∧
      ∀ m n, (database m code kind).failure = (database n code kind).failure ↔
        m = n ∨ OfDuplicate kind m ∧ OfDuplicate kind n ∧
          ∃ column, Leaves m column ∧ Leaves n column := by
  have hleaves (m column : String) :
      (database m code kind).failure = .duplicate column "unknown" ↔
        OfDuplicate kind m ∧ Leaves m column := by
    rw [← duplicateField_eq_iff]
    constructor
    · intro h
      by_cases hm : OfDuplicate kind m
      · rw [failure_of_duplicate hm] at h
        exact ⟨hm, (Failure.duplicate.inj h).1⟩
      · have hholds : Holds m (database m code kind).failure := holds_of_not_duplicate hm
        rw [h] at hholds
        cases hholds
    · rintro ⟨hm, rfl⟩
      exact failure_of_duplicate hm
  refine ⟨fun m => holds_failure_iff, hleaves, fun m n => ?_⟩
  constructor
  · intro h
    by_cases hm : OfDuplicate kind m
    · obtain ⟨hn, hcolumn⟩ := (hleaves n _).mp (h ▸ failure_of_duplicate hm)
      exact .inr ⟨hm, hn, _, duplicateField_eq_iff.mp rfl, hcolumn⟩
    · have hholds : Holds m (database m code kind).failure := holds_of_not_duplicate hm
      rw [h] at hholds
      have hn : ¬ OfDuplicate kind n := by
        intro hn
        rw [failure_of_duplicate hn] at hholds
        cases hholds
      exact .inl (hholds.eq (holds_of_not_duplicate hn))
  · rintro (rfl | ⟨hm, hn, column, hleft, hright⟩)
    · rfl
    · rw [(hleaves m column).mpr ⟨hm, hleft⟩, (hleaves n column).mpr ⟨hn, hright⟩]

/-- What a trigger says in front of the words of a duplicate is lost. -/
theorem reports_confused :
    "north: UNIQUE constraint failed: shelf" ≠ "south: UNIQUE constraint failed: shelf" ∧
      (database "north: UNIQUE constraint failed: shelf" (some "1811") .other).failure =
        (database "south: UNIQUE constraint failed: shelf" (some "1811") .other).failure := by
  decide

end Relata.Report
