import Relata.Query.Fault
import Relata.Value.Basic

/-! # Scalars

The store keeps five classes of values, and a statement binds the same. Every other
value is turned into one of them or refused.
-/

namespace Relata

/-- What the store keeps and what a statement binds. -/
inductive Scalar
  | null
  | integer (n : Int64)
  | real (x : Binary64)
  | text (s : String)
  | blob (bytes : List UInt8)
  deriving DecidableEq

/-- What a cell of a row reads back as. -/
def Scalar.toValue : Scalar → Value
  | null => .null
  | integer n => .integer n
  | real x => .real x
  | text s => .text s
  | blob bytes => .blob bytes

/-- The scalar that a value is bound as: truth values are one and zero, instants
and dates are their texts. Lists, records and doubles that are not finite are
refused under the name of their field. -/
def Value.toScalar (field : String) : Value → Except Fault Scalar
  | null => .ok .null
  | bool b => .ok (.integer (if b then 1 else 0))
  | integer n => .ok (.integer n)
  | real x => if x.isFinite then .ok (.real x) else .error (.unbindable field .nonFinite)
  | text s => .ok (.text s)
  | blob bytes => .ok (.blob bytes)
  | timestamp t => .ok (.text t.text)
  | date d => .ok (.text d.text)
  | array _ => .error (.unbindable field (.kind .array))
  | object _ => .error (.unbindable field (.kind .object))

def Value.Bindable (v : Value) : Prop :=
  match v with
  | real x => x.isFinite = true
  | array _ => False
  | object _ => False
  | _ => True

theorem Value.toScalar_isOk_iff (field : String) (v : Value) :
    (∃ s, v.toScalar field = .ok s) ↔ v.Bindable := by
  cases v with
  | real x => by_cases h : x.isFinite = true <;> simp [toScalar, Bindable, h]
  | _ => simp [toScalar, Bindable]

end Relata
