import Cascade.Slot

/-! # Errors

The reasons why a value, a rule or a sheet is refused, and their wording. -/

namespace Cascade

/-- Why something is refused. -/
inductive Error where
  /-- No slot has the name. -/
  | unknownProperty (name : String)
  /-- The name of a declaration outside the slots is not an identifier. -/
  | invalidName (name : String)
  /-- The slot does not take values of the kind. -/
  | kindMismatch (slot : Slot) (found : ValueKind)
  /-- The magnitude of a length for the slot is not finite. -/
  | notFinite (slot : Slot) (magnitude : NonFinite)
  /-- The selector of the rule with the index is blank. -/
  | blankSelector (index : Nat)
  /-- The output did not take the whole text. -/
  | refused
  deriving DecidableEq, Repr

namespace Error

/-- The wording of an error. -/
def message : Error → String
  | unknownProperty name => "Unknown property '" ++ name ++ "': no slot is registered for it"
  | invalidName name => "Invalid custom property name '" ++ name ++ "'"
  | kindMismatch slot found =>
    "Type mismatch for property '" ++ slot.name ++ "': expected " ++ slot.kind.text ++ ", found " ++
      found.text
  | notFinite slot magnitude =>
    "Invalid value for property '" ++ slot.name ++ "': magnitude must be finite, got Some(" ++
      magnitude.text ++ ")"
  | blankSelector index => "Rule " ++ toString index ++ " has an empty selector"
  | refused => "Failed to write CSS output: an error occurred when formatting an argument"

end Error

/-- The slot with the given name, or the error that there is none. -/
def Slot.find (name : String) : Except Error Slot :=
  match ofName? name with
  | some slot => .ok slot
  | none => .error (.unknownProperty name)

end Cascade
