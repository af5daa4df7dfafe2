/-! # Three-valued truth

A comparison with nothing is neither true nor false. Unknown is carried through
conjunctions and disjunctions unless the other side decides them.
-/

namespace Relata

/-- True, false, or unknown. -/
abbrev Truth := Option Bool

namespace Truth

def and : Truth → Truth → Truth
  | some false, _ => some false
  | _, some false => some false
  | some true, t => t
  | t, some true => t
  | none, none => none

def or : Truth → Truth → Truth
  | some true, _ => some true
  | _, some true => some true
  | some false, t => t
  | t, some false => t
  | none, none => none

def not (t : Truth) : Truth :=
  t.map (! ·)

/-- Only what is true selects a row. -/
def holds (t : Truth) : Bool :=
  t == some true

def all (ts : List Truth) : Truth :=
  ts.foldr and (some true)

def any (ts : List Truth) : Truth :=
  ts.foldr or (some false)

theorem holds_and (s t : Truth) : (s.and t).holds = (s.holds && t.holds) := by
  rcases s with _ | _ | _ <;> rcases t with _ | _ | _ <;> rfl

theorem holds_or (s t : Truth) : (s.or t).holds = (s.holds || t.holds) := by
  rcases s with _ | _ | _ <;> rcases t with _ | _ | _ <;> rfl

theorem holds_all (ts : List Truth) : (all ts).holds = ts.all holds := by
  induction ts with
  | nil => rfl
  | cons t ts ih => rw [all, List.foldr_cons, holds_and, List.all_cons, ← ih, all]

theorem holds_any (ts : List Truth) : (any ts).holds = ts.any holds := by
  induction ts with
  | nil => rfl
  | cons t ts ih => rw [any, List.foldr_cons, holds_or, List.any_cons, ← ih, any]

theorem not_or (s t : Truth) : (s.or t).not = s.not.and t.not := by
  rcases s with _ | _ | _ <;> rcases t with _ | _ | _ <;> rfl

end Truth

end Relata
