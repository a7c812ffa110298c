import Cascade.Color
import Cascade.Keyword.Box
import Cascade.Length.Basic

/-! # Borders

A border has a width, a line style and a color, each of which may be left open. -/

namespace Cascade

/-- The width, line style and color of a border, as far as they are set. -/
structure Border where
  width? : Option Length := none
  style? : Option BorderStyle := none
  color? : Option Color := none
  deriving BEq, Repr

namespace Border

/-- A border of which nothing is set. -/
def isEmpty (b : Border) : Bool :=
  b.width?.isNone && b.style?.isNone && b.color?.isNone

/-- The texts of the parts that are set and have one, in the order width, style, color. -/
def partTexts (b : Border) : List String :=
  [b.width?.map Length.css, b.style?.map Keyword.text, b.color?.bind Color.css?].filterMap id

/-- The text of a border as a shorthand, unless no part has a text. -/
def css? (b : Border) : Option String :=
  match b.partTexts with
  | [] => none
  | parts => some (" ".intercalate parts)

end Border

end Cascade
