/-!
# Mappings

A mapping names the fields of an entry that become the value, the title, the group, the attributes
and the mark of a choice. A role that is not set, or is set to the empty path, is disabled.

* `Mapping.overlay`: the roles of a second mapping win where they are set.
-/

namespace Picklist

/-- The path of each role. -/
structure Mapping where
  value : Option String
  title : Option String
  optgroup : Option String
  attributes : Option String
  isActual : Option String
deriving DecidableEq, Inhabited

namespace Mapping

/-- No role is set. -/
def unset : Mapping := ⟨none, none, none, none, none⟩

/-- Every role but the value is the field of its own name. -/
def standard : Mapping :=
  ⟨none, some "title", some "optgroup", some "attributes", some "is_actual"⟩

/-- Only the title is set: the mapping of entries that stand in front of the data. -/
def bare : Mapping := { unset with title := some "title" }

/-- The path of an enabled role. -/
def enabled (role : Option String) : Option String := role.filter (· ≠ "")

/-- The path of the value, if that role is enabled. -/
def valuePath? (m : Mapping) : Option String := enabled m.value

/-- The path of the title, if that role is enabled. -/
def titlePath? (m : Mapping) : Option String := enabled m.title

/-- The path of the group, if that role is enabled. -/
def optgroupPath? (m : Mapping) : Option String := enabled m.optgroup

/-- The path of the attributes, if that role is enabled. -/
def attributesPath? (m : Mapping) : Option String := enabled m.attributes

/-- The path of the mark, if that role is enabled. -/
def isActualPath? (m : Mapping) : Option String := enabled m.isActual

/-- The roles of `upper` where they are set, the roles of `lower` elsewhere. -/
def overlay (lower upper : Mapping) : Mapping where
  value := upper.value.or lower.value
  title := upper.title.or lower.title
  optgroup := upper.optgroup.or lower.optgroup
  attributes := upper.attributes.or lower.attributes
  isActual := upper.isActual.or lower.isActual

/-! ## Setting one role -/

/-- Take the value from a path. -/
def withValue (m : Mapping) (path : String) : Mapping := { m with value := some path }

/-- Take the title from a path. -/
def withTitle (m : Mapping) (path : String) : Mapping := { m with title := some path }

/-- Take the group from a path. -/
def withOptgroup (m : Mapping) (path : String) : Mapping := { m with optgroup := some path }

/-- Make no groups. -/
def withoutOptgroup (m : Mapping) : Mapping := { m with optgroup := none }

/-- Take the attributes from a path. -/
def withAttributes (m : Mapping) (path : String) : Mapping := { m with attributes := some path }

/-- Take the mark from a path. -/
def withIsActual (m : Mapping) (path : String) : Mapping := { m with isActual := some path }

end Mapping

end Picklist
