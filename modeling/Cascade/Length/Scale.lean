import Cascade.Length.Basic

/-! # The spacing scale

Named lengths. A step of the scale is a quarter of the root font size, and a length is named by its
number of steps; not every number of steps is in the scale. -/

namespace Cascade.Length

/-- The whole of the reference value. -/
def full : Length := ⟨100, .percent⟩

/-- Half of the reference value. -/
def half : Length := ⟨50, .percent⟩

/-- The lengths of the scale, by name. -/
def scale : List (String × Length) :=
  [("0", zero), ("px", ⟨1, .px⟩), ("0.5", ⟨0.125, .rem⟩), ("1", ⟨0.25, .rem⟩),
    ("1.5", ⟨0.375, .rem⟩), ("2", ⟨0.5, .rem⟩), ("2.5", ⟨0.625, .rem⟩), ("3", ⟨0.75, .rem⟩),
    ("3.5", ⟨0.875, .rem⟩), ("4", ⟨1, .rem⟩), ("5", ⟨1.25, .rem⟩), ("6", ⟨1.5, .rem⟩),
    ("7", ⟨1.75, .rem⟩), ("8", ⟨2, .rem⟩), ("9", ⟨2.25, .rem⟩), ("10", ⟨2.5, .rem⟩),
    ("11", ⟨2.75, .rem⟩), ("12", ⟨3, .rem⟩), ("14", ⟨3.5, .rem⟩), ("16", ⟨4, .rem⟩),
    ("20", ⟨5, .rem⟩), ("24", ⟨6, .rem⟩), ("28", ⟨7, .rem⟩), ("32", ⟨8, .rem⟩),
    ("36", ⟨9, .rem⟩), ("40", ⟨10, .rem⟩), ("44", ⟨11, .rem⟩), ("48", ⟨12, .rem⟩),
    ("52", ⟨13, .rem⟩), ("56", ⟨14, .rem⟩), ("60", ⟨15, .rem⟩), ("64", ⟨16, .rem⟩),
    ("72", ⟨18, .rem⟩), ("80", ⟨20, .rem⟩), ("96", ⟨24, .rem⟩), ("full", full), ("half", half),
    ("auto", auto)]

/-- The length of the scale with the given name. -/
def ofScale? (name : String) : Option Length := scale.lookup name

end Cascade.Length
