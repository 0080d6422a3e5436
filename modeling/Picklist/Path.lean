import Picklist.Entry
import Picklist.SelectionError
import Picklist.Text

/-!
# Dotted paths

A path names a member by its segments between dots. A field whose name is the whole path, dots
included, wins over the walk along the segments.

* `Value.follow`: the walk along segments, through objects by name and arrays by position.
* `Value.resolve`: a path inside a value.
* `Entry.require`, `Entry.present?`: strict and lenient extraction; `Entry.extract` takes the mode.
-/

namespace Picklist

/-- The segments of a path. -/
def Path.segments (path : String) : List String :=
  (Text.pieces '.' path.toList).map String.ofList

namespace Value

/-- One step: the member of an object, or the item of an array at a position. -/
def step : Value → String → Option Value
  | .object members, segment => members.lookup segment
  | .array items, segment => (Text.index? segment).bind fun index => items[index]?
  | _, _ => none

/-- The walk along segments. -/
def follow (v : Value) : List String → Option Value
  | [] => some v
  | segment :: rest => (v.step segment).bind (follow · rest)

/-- The member of an object whose name is the whole path. -/
def verbatim? : Value → String → Option Value
  | .object members, path => members.lookup path
  | _, _ => none

/-- The value under a path. -/
def resolve (root : Value) (path : String) : Option Value :=
  (root.verbatim? path).or (root.follow (Path.segments path))

/-- The part of a document under a configuration key; the empty key is the whole document. -/
def section? (document : Value) (key : String) : Option Value :=
  if key = "" then some document else document.resolve key

/-- Whether the value is `null`. -/
def isNull : Value → Bool
  | .null => true
  | _ => false

/-- The walk along two lists of segments is one walk after the other. -/
theorem follow_append (v : Value) (first second : List String) :
    v.follow (first ++ second) = (v.follow first).bind (follow · second) := by
  induction first generalizing v with
  | nil => rfl
  | cons segment rest ih =>
    simp only [List.cons_append, follow]
    cases v.step segment with
    | none => rfl
    | some w => exact ih w

end Value

namespace Entry

/-- How a missing path is taken. -/
inductive Extraction where
  /-- A missing path is an error. -/
  | strict
  /-- A missing path and `null` are nothing. -/
  | lenient
deriving DecidableEq

/-- The value under a path of the entry's fields. -/
def find? (entry : Entry) (path : String) : Option Value :=
  entry.fields?.bind fun fields => (Value.object fields).resolve path

/-- The value under a path that must be there. -/
def require (entry : Entry) (path : String) : Except SelectionError Value :=
  match entry.find? path with
  | some v => .ok v
  | none => .error (.missingField path)

/-- The value under a path, unless it is missing or `null`. -/
def present? (entry : Entry) (path : String) : Option Value :=
  (entry.find? path).filter fun v => !v.isNull

/-- Extraction in either mode. -/
def extract (entry : Entry) (path : String) (mode : Extraction) :
    Except SelectionError (Option Value) :=
  match entry.find? path, mode with
  | some v, .strict => .ok (some v)
  | some .null, .lenient => .ok none
  | none, .lenient => .ok none
  | some v, .lenient => .ok (some v)
  | none, .strict => .error (.missingField path)

end Entry

end Picklist
