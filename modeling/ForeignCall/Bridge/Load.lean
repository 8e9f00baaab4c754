import ForeignCall.Bridge.Invoke

/-!
# ForeignCall.Bridge.Load

Loading sources in bulk: a language tag, and an array of paths.

The tag must be a string that is not empty and not too long, the array must
not be too long, and an empty array loads nothing.  Each item is coerced to a
string by the host and copied into a native string, in order; the first item
that cannot be copied ends the operation before the engine is asked.  The
copies are held until the engine has answered.
-/

namespace ForeignCall

namespace Bridge

open Operation

variable [Memory] {σ : Type} [HostRuntime σ]

/-- A buffer of fixed size; one that is no valid size is a breakdown.  A valid size that memory does
not grant ends the process, and no operation sees that. -/
def fixedBuffer (size : Nat) : Operation σ Unit :=
  if Allocation.maxSize < size then Action.panic (some "capacity overflow") else pure ()

/-- The language tag, read into a buffer for the longest one allowed. -/
def decodeTag (limits : Limits) (h : Handle) : Operation σ String := do
  let most := limits.maxTagLen.toNat
  let len ← nameOnHost (HostRuntime.utf8Len h)
  if len = 0 then Action.fail (.nameDecode .emptyLanguageTag)
  else if most < len then Action.fail (.capacityExceeded .languageTag len most)
  else
    let size ← terminatedSize most
    fixedBuffer size
    asName (← nameOnHost (HostRuntime.readUtf8 h size))

/-- The octets of a path. -/
def copyPath (limits : Limits) (index : Nat) (item : Handle) : Operation σ (List UInt8) := do
  let most := limits.maxPathLen.toNat
  let h ← onHost .host (HostRuntime.coerceToString item)
  let len ← onHost .host (HostRuntime.utf8Len h)
  if len = 0 then Action.fail (.nameDecode (.emptyPath index))
  else if most < len then Action.fail (.capacityExceeded .path len most)
  else
    let size ← terminatedSize len
    reserve .path size
    onHost .host (HostRuntime.readUtf8 h size)

/-- The octets of an item of the array, which must not contain a NUL. -/
def nativePath (limits : Limits) (paths : Handle) (index : Nat) : Operation σ (List UInt8) := do
  let item ← onHost .host (HostRuntime.arrayGet paths index)
  let bytes ← copyPath limits index item
  match bytes.findIdx? (· = 0) with
  | some position => Action.fail (.conversion (.interiorNul position))
  | none => return bytes

omit [Memory] in
/-- There is no first NUL if there is no NUL. -/
theorem findIdx?_nul_eq_none_iff {bytes : List UInt8} :
    bytes.findIdx? (· = 0) = none ↔ 0 ∉ bytes := by
  rw [List.findIdx?_eq_none_iff]
  refine ⟨fun h hmem => by simpa using h 0 hmem, fun h b hb => decide_eq_false fun hzero => ?_⟩
  exact h (hzero ▸ hb)

/-- Do something with the next `count` items of the array, from `index` on, which are held
meanwhile. -/
def withPaths {α : Type} (limits : Limits) (paths : Handle) (index : Nat)
    (body : List (List UInt8) → Operation σ α) : (count : Nat) → Operation σ α
  | 0 => body []
  | count + 1 => do
    let bytes ← nativePath limits paths index
    holding .nativeString
      (withPaths limits paths (index + 1) (fun natives => body (bytes :: natives)) count)

/-- The octets of a native string and its account. -/
def nativeWidth : Nat := 32

/-- Load sources from the host. -/
def bulkLoad (limits : Limits) (tag paths : Handle) : Operation σ Unit := do
  let most := limits.maxLoadPaths.toNat
  let tag ← decodeTag limits tag
  let len ← onHost .host (HostRuntime.arrayLen paths)
  if most < len then Action.fail (.capacityExceeded .pathList len most)
  else if len = 0 then return
  else
    reserve .pathList (len * nativeWidth)
    let status ← withPaths limits paths 0
      (fun natives => onEngine fun engine streams => engine.loadFromFile tag natives streams) len
    if status = 0 then return else Action.fail (.callFailure (.loadStatus status))

end Bridge

end ForeignCall
