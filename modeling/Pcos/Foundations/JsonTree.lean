import Pcos.Foundations.Json

/-!
# Foundations/JsonTree — JSON values with arrays and objects in them

What a reader takes from a document: an element that may be missing, an array, a text, or a record of
named fields.  A record is an object, or an array of all its fields in their order.  What a writer
writes for a text, a number or an optional value is read as that.
-/

namespace Foundations

inductive JsonTree
  | value (v : JsonValue)
  | array (items : List JsonTree)
  | object (fields : List (String × JsonTree))

namespace JsonTree

def get? (key : String) : JsonTree → Option JsonTree
  | object fields => fields.lookup key
  | _ => none

/-- The element of a key, or `null`. -/
def index (key : String) (j : JsonTree) : JsonTree := (j.get? key).getD (value .null)

def asArray : JsonTree → Option (List JsonTree)
  | array items => some items
  | _ => none

def asValue : JsonTree → Option JsonValue
  | value v => some v
  | _ => none

def asStr (j : JsonTree) : Option String := j.asValue.bind JsonValue.asString

def asInt (bits : ℕ) (j : JsonTree) : Option ℤ := j.asValue.bind (JsonValue.asInt bits)

def asBool (j : JsonTree) : Option Bool :=
  match j.asValue with
  | some (.bool b) => some b
  | _ => none

/-- The fields of a record. -/
def recordFields (names : List String) : JsonTree → Option (List (String × JsonTree))
  | object fields => some fields
  | array items => if items.length = names.length then some (names.zip items) else none
  | value _ => none

/-- An array whose items are all read. -/
def listOf {α : Type} (read : JsonTree → Option α) (j : JsonTree) : Option (List α) :=
  j.asArray.bind fun items => items.mapM read

end JsonTree

/-- A field that the record must have. -/
def fieldOf {α : Type} (fields : List (String × JsonTree)) (name : String)
    (read : JsonTree → Option α) : Option α :=
  (fields.lookup name).bind read

/-- A field that may be absent or `null`. -/
def optionalFieldOf {α : Type} (fields : List (String × JsonTree)) (name : String)
    (read : JsonTree → Option α) : Option (Option α) :=
  match fields.lookup name with
  | none => some none
  | some (.value .null) => some none
  | some j => (read j).map some

/-! ## Writing -/

namespace JsonTree

def str (text : String) : JsonTree := value (.string text)

def int (n : ℤ) : JsonTree := value (.number n)

def bool (b : Bool) : JsonTree := value (.bool b)

/-- A value, or `null`. -/
def ofOption {α : Type} (write : α → JsonTree) : Option α → JsonTree
  | none => value .null
  | some a => write a

variable {α : Type} {write : α → JsonTree} {read : JsonTree → Option α}

@[simp] theorem asStr_str (text : String) : (str text).asStr = some text := rfl

@[simp] theorem asBool_bool (b : Bool) : (bool b).asBool = some b := rfl

theorem asInt_int {bits : ℕ} {n : ℤ} (h : -2 ^ (bits - 1) ≤ n ∧ n < 2 ^ (bits - 1)) :
    (int n).asInt bits = some n := if_pos h

/-- The items of an array are read one by one. -/
theorem listOf_array_map {l : List α} (h : ∀ a ∈ l, read (write a) = some a) :
    (array (l.map write)).listOf read = some l := by
  change (l.map write).mapM read = some l
  induction l with
  | nil => rfl
  | cons a l ih =>
    rw [List.map_cons, List.mapM_cons, h a List.mem_cons_self,
      ih fun a ha => h a (List.mem_cons_of_mem _ ha)]
    rfl

end JsonTree

section Fields

variable {α : Type} {fields : List (String × JsonTree)} {name : String} {write : α → JsonTree}
  {read : JsonTree → Option α} {a : α}

theorem fieldOf_eq_some (hfield : fields.lookup name = some (write a))
    (h : read (write a) = some a) : fieldOf fields name read = some a := by
  rw [fieldOf, hfield, Option.bind_some, h]

/-- **An optional value is read back**, if it is never written as `null`. -/
theorem optionalFieldOf_ofOption {o : Option α}
    (hfield : fields.lookup name = some (JsonTree.ofOption write o))
    (hnull : ∀ a, write a ≠ .value .null) (h : ∀ a ∈ o, read (write a) = some a) :
    optionalFieldOf fields name read = some o := by
  rw [optionalFieldOf, hfield]
  cases o with
  | none => rfl
  | some a =>
    rw [JsonTree.ofOption]
    split
    case h_1 heq => cases heq
    case h_2 heq => exact absurd (Option.some.inj heq) (hnull a)
    case h_3 j _ heq => rw [← Option.some.inj heq, h a rfl, Option.map_some]

end Fields

end Foundations
