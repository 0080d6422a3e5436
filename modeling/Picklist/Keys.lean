import Picklist.Condition

/-!
# Choosing keys

The keys of the entries that meet a condition, in order, and four ways to choose one of them:
the only one, the first if any, the first that must be there, and any.
-/

namespace Picklist.Entries

/-- The keys of the entries that meet a condition. -/
def keys (entries : Entries) (condition : Condition) : List String :=
  (entries.filter fun (key, entry) => condition.admits key entry).map (·.1)

/-- The matching key: in strict mode there must be exactly one, otherwise it is the first if
    there is any. -/
def key (entries : Entries) (condition : Condition) (strict : Bool) :
    Except SelectionError (Option String) :=
  let matching := entries.keys condition
  if strict && matching.length ≠ 1 then .error (.notSingleton matching.length)
  else .ok matching.head?

/-- The first matching key, which must be there. -/
def firstKey (entries : Entries) (condition : Condition) : Except SelectionError String := do
  match ← entries.key condition false with
  | some key => return key
  | none => throw .emptySet

/-- Any matching key, which must be there: `pick` is asked for a position, given their number. -/
def anyKey (entries : Entries) (condition : Condition) (pick : Nat → Nat) :
    Except SelectionError String :=
  let matching := entries.keys condition
  match matching[pick matching.length % matching.length]? with
  | some key => .ok key
  | none => .error .emptySet

end Picklist.Entries
