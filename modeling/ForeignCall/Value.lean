import ForeignCall.Entries
import ForeignCall.Number.Binary32

/-!
# ForeignCall.Value

The values of the engine's side of a call: plain data over thirteen kinds.

Integers come in four widths and floating point numbers in two.  A function is
known by its name, and a pointer is an address that only the engine understands.

A map is kept in key order (`ForeignCall.Entries`).  What is put together says
so (`Value.Canonical`): the type itself cannot, since its maps hold more of it.
-/

namespace ForeignCall

/-- The kind of a value. -/
inductive ValueKind where
  | null
  | bool
  | s8
  | s16
  | s32
  | s64
  | f32
  | f64
  | string
  | array
  | map
  | function
  | ptr
deriving DecidableEq, Repr

namespace ValueKind

/-- The name of a kind. -/
def name : ValueKind → String
  | .null => "null"
  | .bool => "bool"
  | .s8 => "s8"
  | .s16 => "s16"
  | .s32 => "s32"
  | .s64 => "s64"
  | .f32 => "f32"
  | .f64 => "f64"
  | .string => "string"
  | .array => "array"
  | .map => "map"
  | .function => "function"
  | .ptr => "ptr"

/-- The kinds of integers. -/
def isInteger : ValueKind → Bool
  | .s8 | .s16 | .s32 | .s64 => true
  | _ => false

end ValueKind

/-- A value. -/
inductive Value where
  | null
  | bool (b : Bool)
  | s8 (n : Int8)
  | s16 (n : Int16)
  | s32 (n : Int32)
  | s64 (n : Int64)
  | f32 (x : Binary32)
  | f64 (x : Binary64)
  | string (s : String)
  | array (items : List Value)
  | map (entries : List (String × Value))
  | function (name : String)
  | ptr (address : UInt64)
deriving Inhabited

namespace Value

/-- The kind of a value. -/
def kind : Value → ValueKind
  | .null => .null
  | .bool _ => .bool
  | .s8 _ => .s8
  | .s16 _ => .s16
  | .s32 _ => .s32
  | .s64 _ => .s64
  | .f32 _ => .f32
  | .f64 _ => .f64
  | .string _ => .string
  | .array _ => .array
  | .map _ => .map
  | .function _ => .function
  | .ptr _ => .ptr

/-- An integer of any width, widened. -/
def toInt64? : Value → Option Int64
  | .s8 n => some n.toInt64
  | .s16 n => some n.toInt64
  | .s32 n => some n.toInt64
  | .s64 n => some n
  | _ => none

/-- A number of any kind as a double; a 64-bit integer becomes the nearest one. -/
def toBinary64? : Value → Option Binary64
  | .f32 x => some x.toBinary64
  | .f64 x => some x
  | v => v.toInt64?.map fun n => .ofInt n.toInt

/-- The text of a string. -/
def toString? : Value → Option String
  | .string s => some s
  | _ => none

/-! ## Equality -/

mutual

/-- Equality of values: of one kind, and equal as numbers, texts or componentwise.  Zeros of both
signs are equal, and what is not a number differs from itself. -/
def equal : Value → Value → Bool
  | .null, .null => true
  | .bool a, .bool b => a = b
  | .s8 a, .s8 b => a = b
  | .s16 a, .s16 b => a = b
  | .s32 a, .s32 b => a = b
  | .s64 a, .s64 b => a = b
  | .f32 a, .f32 b => a.equal b
  | .f64 a, .f64 b => a.equal b
  | .string a, .string b => a = b
  | .array a, .array b => equalItems a b
  | .map a, .map b => equalEntries a b
  | .function a, .function b => a = b
  | .ptr a, .ptr b => a = b
  | _, _ => false

/-- Equality item by item. -/
def equalItems : List Value → List Value → Bool
  | [], [] => true
  | a :: as, b :: bs => equal a b && equalItems as bs
  | _, _ => false

/-- Equality entry by entry. -/
def equalEntries : List (String × Value) → List (String × Value) → Bool
  | [], [] => true
  | (k, a) :: as, (l, b) :: bs => k = l && equal a b && equalEntries as bs
  | _, _ => false

end

/-! ## Key order -/

mutual

/-- Every map is in key order. -/
def Ordered : Value → Prop
  | .array items => OrderedItems items
  | .map entries => Entries.Sorted entries ∧ OrderedEntries entries
  | _ => True

/-- The same for the items of an array. -/
def OrderedItems : List Value → Prop
  | [] => True
  | v :: rest => v.Ordered ∧ OrderedItems rest

/-- The same for the entries of a map. -/
def OrderedEntries : List (String × Value) → Prop
  | [] => True
  | (_, v) :: rest => v.Ordered ∧ OrderedEntries rest

end

theorem orderedItems_iff {items : List Value} :
    OrderedItems items ↔ ∀ v ∈ items, v.Ordered := by
  induction items with
  | nil => simp [OrderedItems]
  | cons v rest ih => simp [OrderedItems, ih]

theorem orderedEntries_iff {entries : List (String × Value)} :
    OrderedEntries entries ↔ ∀ entry ∈ entries, entry.2.Ordered := by
  induction entries with
  | nil => simp [OrderedEntries]
  | cons entry rest ih => simp [OrderedEntries, ih]

/-- Of entries in any order, those of a map that is kept. -/
theorem ordered_ofList {entries : List (String × Value)} (h : OrderedEntries entries) :
    Ordered (.map (Entries.ofList entries)) :=
  ⟨Entries.sorted_ofList entries, orderedEntries_iff.mpr fun entry hentry =>
    orderedEntries_iff.mp h entry (Entries.mem_ofList hentry)⟩

/-- A value as it is put together, with all its maps in key order. -/
@[ext]
structure Canonical where
  value : Value
  ordered : value.Ordered

instance : Coe Canonical Value := ⟨Canonical.value⟩

namespace Canonical

/-- An array of such values. -/
def array (items : List Canonical) : Canonical where
  value := .array (items.map value)
  ordered := orderedItems_iff.mpr <| List.forall_mem_map.mpr fun item _ => item.ordered

/-- A map with these entries, of which the last of each key is kept. -/
def map (entries : List (String × Canonical)) : Canonical where
  value := .map (Entries.ofList (entries.map fun entry => (entry.1, entry.2.value)))
  ordered := ordered_ofList <| orderedEntries_iff.mpr <|
    List.forall_mem_map.mpr fun entry _ => entry.2.ordered

theorem value_map_zip (keys : List String) (values : List Canonical) :
    (map (keys.zip values)).value =
      .map (Entries.ofList (keys.zip (values.map Canonical.value))) := by
  rw [List.zip_map_right]
  rfl

end Canonical

end Value

end ForeignCall
