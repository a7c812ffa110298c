import Cascade.Declaration
import Cascade.Identifier
import Cascade.PropSet.Basic

/-! # Rules

A rule has a selector, a property set, and declarations outside the slots, whose names need not be
known. -/

namespace Cascade

/-- Refuses a declaration whose name is not an identifier. -/
def Declaration.requireName (d : Declaration) : Except Error Unit :=
  if Identifier.isValid d.name then .ok () else .error (.invalidName d.name)

/-- A selector with what it declares. -/
structure Rule where
  selector : String
  props : PropSet := ∅
  custom : List Declaration := []
  deriving BEq

namespace Rule

/-- Whether a rule declares nothing. -/
def isEmpty (r : Rule) : Bool := r.props.isEmpty && r.custom.isEmpty

/-- The rule with a value for a slot. -/
def insert (r : Rule) (s : Slot) (v : Value) : Rule := { r with props := r.props.insert s v }

/-- The rule with more declarations outside the slots, after those it has. -/
def declare (r : Rule) (ds : List Declaration) : Rule := { r with custom := r.custom ++ ds }

end Rule

end Cascade
