import Mathlib.Algebra.Group.Int.Defs
import Mathlib.Data.Nat.Notation

/-!
# Foundations/Json — objects, and the fields read from them

What a typed reader makes of a JSON object: a field is required or optional, fields it does not name
are ignored, and the first that is missing or of the wrong kind is reported.
-/

namespace Foundations

/-- The JSON values that fields can take. -/
inductive JsonValue
  | null
  | string (text : String)
  | number (value : ℤ)
  | bool (value : Bool)
  deriving DecidableEq, Repr

abbrev JsonObject := List (String × JsonValue)

/-- What a reader reports of an object it refuses. -/
inductive DecodeError
  | missingField (field : String)
  | invalidField (field : String)
  deriving DecidableEq, Repr

namespace JsonValue

def asString : JsonValue → Option String
  | .string text => some text
  | _ => none

/-- An integer of the given number of bits. -/
def asInt (bits : ℕ) : JsonValue → Option ℤ
  | .number n => if -2 ^ (bits - 1) ≤ n ∧ n < 2 ^ (bits - 1) then some n else none
  | _ => none

end JsonValue

/-- A field that the object must have. -/
def requiredField {α : Type} (body : JsonObject) (field : String) (read : JsonValue → Option α) :
    Except DecodeError α :=
  match body.lookup field with
  | none => .error (.missingField field)
  | some v => (read v).elim (.error (.invalidField field)) .ok

/-- A field that may be absent or `null`. -/
def optionalField {α : Type} (body : JsonObject) (field : String) (read : JsonValue → Option α) :
    Except DecodeError (Option α) :=
  match body.lookup field with
  | none => .ok none
  | some .null => .ok none
  | some v => (read v).elim (.error (.invalidField field)) fun a => .ok (some a)

end Foundations
