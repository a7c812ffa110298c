/-! # Options

How a sheet is written, and whether the names of declarations outside the slots are checked. -/

namespace Cascade

/-- The layout of the text of a sheet. -/
inductive Format where
  /-- No white space between declarations and nothing between rules. -/
  | compact
  /-- A line for each declaration and a blank line between rules. -/
  | pretty
  deriving DecidableEq, Repr

/-- The name of a format. -/
def Format.text : Format → String
  | compact => "Compact"
  | pretty => "Pretty"

/-- The options of a compilation. -/
structure Options where
  format : Format := .compact
  validateNames : Bool := true
  deriving DecidableEq, Repr, Inhabited

namespace Options

/-- Compact text and checked names. -/
def compact : Options := {}

/-- Pretty text and checked names. -/
def pretty : Options := { format := .pretty }

end Options

end Cascade
