import ForeignCall.Entries
import ForeignCall.Number.Binary64

/-!
# ForeignCall.Json

JSON values.  A number is an integer between -2^63 and 2^64 - 1, or a finite
double: the two never meet, so `1` and `1.0` are different values.

What is written out has the fields of its objects in the order they are written
in.  What is kept has them in key order (`ForeignCall.Entries`), and says so
(`Json.Canonical`): the type itself cannot, since its objects hold more of it.
-/

namespace ForeignCall

namespace Json

/-- A JSON number. -/
inductive Number where
  /-- An integer that fits a signed or an unsigned 64-bit word. -/
  | integer (n : Int) (lower : -2 ^ 63 ≤ n) (upper : n < 2 ^ 64)
  /-- Every other number, as the double that stands for it. -/
  | real (x : Binary64) (finite : x.isFinite = true)
deriving DecidableEq, Repr

end Json

/-- A JSON value. -/
inductive Json where
  | null
  | bool (b : Bool)
  | number (n : Json.Number)
  | string (s : String)
  | array (items : List Json)
  | object (fields : List (String × Json))
deriving Repr, Inhabited

namespace Json

/-- The value of a double: JSON has no infinities and nothing that is not a number, so these
become null. -/
def ofBinary64 (x : Binary64) : Json :=
  if finite : x.isFinite = true then .number (.real x finite) else .null

/-- The value of a signed 64-bit word. -/
def ofInt64 (n : Int64) : Json :=
  .number (.integer n.toInt n.le_toInt (Int.lt_trans n.toInt_lt (by decide)))

namespace Number

/-- The signed 64-bit word of an integer, if it fits one. -/
def toInt64? : Number → Option Int64
  | .integer n _ _ => if n < 2 ^ 63 then some (Int64.ofInt n) else none
  | .real _ _ => none

/-- The double nearest to a number. -/
def toBinary64 : Number → Binary64
  | .integer n _ _ => .ofInt n
  | .real x _ => x

end Number

/-! ## Key order -/

mutual

/-- Every object is in key order. -/
def Ordered : Json → Prop
  | .array items => OrderedItems items
  | .object fields => Entries.Sorted fields ∧ OrderedFields fields
  | _ => True

/-- The same for the items of an array. -/
def OrderedItems : List Json → Prop
  | [] => True
  | item :: rest => item.Ordered ∧ OrderedItems rest

/-- The same for the fields of an object. -/
def OrderedFields : List (String × Json) → Prop
  | [] => True
  | (_, item) :: rest => item.Ordered ∧ OrderedFields rest

end

theorem orderedFields_iff {fields : List (String × Json)} :
    OrderedFields fields ↔ ∀ field ∈ fields, field.2.Ordered := by
  induction fields with
  | nil => simp [OrderedFields]
  | cons field rest ih => simp [OrderedFields, ih]

/-- Of fields in any order, those of an object that is kept. -/
theorem ordered_ofList {fields : List (String × Json)} (h : OrderedFields fields) :
    Ordered (.object (Entries.ofList fields)) :=
  ⟨Entries.sorted_ofList fields, orderedFields_iff.mpr fun field hfield =>
    orderedFields_iff.mp h field (Entries.mem_ofList hfield)⟩

/-- A JSON value as it is kept, with all its objects in key order. -/
@[ext]
structure Canonical where
  json : Json
  ordered : json.Ordered

instance : Coe Canonical Json := ⟨Canonical.json⟩

end Json

end ForeignCall
