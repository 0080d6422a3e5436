import Picklist.Catalog
import Picklist.Condition

/-!
# Publishing a structure

A structure is published with the entries that meet a condition, cut down to the names that are
visible, with the texts under given names localized.

Cutting reaches one level of a branch at most: the top level where it holds a visible name,
otherwise each entry below it that holds one. Localization reaches every depth.
-/

namespace Picklist

/-- How far cutting still reaches on the way down. -/
inductive Reach where
  /-- The published structure itself. -/
  | top
  /-- An entry right below a top level that was left whole. -/
  | entry
  /-- Anything deeper. -/
  | off
deriving DecidableEq

/-- The reach one level down, given whether this level was cut. -/
def Reach.below : Reach → Bool → Reach
  | .top, false => .entry
  | _, _ => .off

/-- The names that are visible, all if there are none, and the names whose texts are localized. -/
structure Publication where
  visible : List String
  localized : List String

namespace Publication

/-- The names that cutting keeps: localized ones stay visible. -/
def kept (p : Publication) : List String :=
  if p.visible.isEmpty then [] else p.visible ++ p.localized

/-- Whether a level with these members is cut. -/
def cuts (p : Publication) (reach : Reach) (members : Value.Fields) : Bool :=
  reach ≠ .off && members.any fun (name, _) => p.kept.contains name

/-- A text under a localized name becomes the localized text. -/
def localize (p : Publication) (localizer : Localizer) (name : String) : Value → Value
  | .string text => .string (if p.localized.contains name then localizer text else text)
  | v => v

mutual

/-- A value cut as far as the reach goes, with its texts localized. -/
def walk (p : Publication) (localizer : Localizer) (reach : Reach) : Value → Value
  | .object members =>
    let cut := p.cuts reach members
    .object (walkMembers p localizer cut (reach.below cut) members)
  | .array items => .array (walkItems p localizer (reach.below false) items)
  | .null => .null
  | .bool b => .bool b
  | .number n => .number n
  | .string s => .string s

/-- `walk` for every item. -/
def walkItems (p : Publication) (localizer : Localizer) (reach : Reach) : List Value → List Value
  | [] => []
  | v :: vs => walk p localizer reach v :: walkItems p localizer reach vs

/-- `walk` for the members that stay. -/
def walkMembers (p : Publication) (localizer : Localizer) (cut : Bool) (reach : Reach) :
    List (String × Value) → List (String × Value)
  | [] => []
  | (name, v) :: rest =>
    if cut && !p.kept.contains name then walkMembers p localizer cut reach rest
    else (name, p.localize localizer name (walk p localizer reach v)) ::
      walkMembers p localizer cut reach rest

end

/-- The entries of a structure that meet a condition; a scalar stays as it is. -/
def admitted (condition : Condition) : Value → Value
  | .object members =>
    .object (members.filter fun (key, item) => condition.admits key (Entry.ofValue item))
  | .array items =>
    .array ((items.zipIdx.filter fun (item, index) =>
      condition.admits (toString index) (Entry.ofValue item)).map (·.1))
  | v => v

/-- The published form of a structure. -/
def publish (p : Publication) (localizer : Localizer) (condition : Condition) (config : Value) :
    Value :=
  p.walk localizer .top (admitted condition config)

end Publication

end Picklist
