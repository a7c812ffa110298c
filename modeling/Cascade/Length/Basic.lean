import Cascade.Binary64.Shortest

/-! # Lengths

A length is a number with a unit. The units `auto` and `inherit` stand for keywords: a length in
one of them keeps the number it was made with, but has no magnitude and does not write it. -/

namespace Cascade

/-- The unit of a length; `number` is the absence of one. -/
inductive LengthUnit where
  | px
  | em
  | rem
  | percent
  | vw
  | vh
  | auto
  | inherit
  | number
  deriving DecidableEq, Repr

namespace LengthUnit

/-- A unit whose lengths have a magnitude. -/
def hasMagnitude : LengthUnit → Bool
  | auto | inherit => false
  | _ => true

/-- The text after the number of a length. -/
def suffix : LengthUnit → String
  | px => "px"
  | em => "em"
  | rem => "rem"
  | percent => "%"
  | vw => "vw"
  | vh => "vh"
  | auto | inherit | number => ""

end LengthUnit

/-- A number with a unit. -/
structure Length where
  number : Binary64
  unit : LengthUnit
  deriving BEq, Repr

namespace Length

/-- The zero length. -/
def zero : Length := ⟨0, .px⟩

instance : Inhabited Length := ⟨zero⟩

/-- The keyword `auto`. -/
def auto : Length := ⟨0, .auto⟩

/-- The keyword `inherit`. -/
def inherit : Length := ⟨0, .inherit⟩

/-- The number of a length whose unit has a magnitude. -/
def magnitude? (l : Length) : Option Binary64 :=
  if l.unit.hasMagnitude then some l.number else none

/-- A length whose magnitude is one of the two zeros. -/
def isZero (l : Length) : Bool :=
  l.magnitude?.any Binary64.isZero

/-- The defect of a length whose magnitude is not finite. -/
def nonFinite? (l : Length) : Option NonFinite :=
  l.magnitude?.bind Binary64.nonFinite?

/-- A length that has no magnitude, or a finite one. -/
def isFinite (l : Length) : Bool :=
  l.magnitude?.all Binary64.isFinite

/-- The CSS text of a length; a zero magnitude drops its unit. -/
def css (l : Length) : String :=
  match l.unit with
  | .auto => "auto"
  | .inherit => "inherit"
  | unit => if l.number.isZero then "0" else l.number.text ++ unit.suffix

theorem nonFinite?_eq_none_iff {l : Length} : l.nonFinite? = none ↔ l.isFinite = true := by
  unfold nonFinite? isFinite
  cases l.magnitude? with
  | none => simp
  | some x => simp [Binary64.nonFinite?_eq_none_iff]

end Length

end Cascade
