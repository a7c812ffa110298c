import Cascade.Keyword.Basic

/-! # Keywords of running text

Alignment and decoration of text, and the markers of lists. -/

namespace Cascade

/-- The alignment of the text of a block; `lineStart` and `lineEnd` follow the writing direction. -/
inductive TextAlign where
  | lineStart
  | lineEnd
  | left
  | right
  | center
  | justify
  deriving DecidableEq, Repr

instance : Keyword TextAlign where
  text
    | .lineStart => "start"
    | .lineEnd => "end"
    | .left => "left"
    | .right => "right"
    | .center => "center"
    | .justify => "justify"

/-- The line that decorates a text. -/
inductive TextDecorationLine where
  | none
  | underline
  | overline
  | lineThrough
  deriving DecidableEq, Repr

instance : Keyword TextDecorationLine where
  text
    | .none => "none"
    | .underline => "underline"
    | .overline => "overline"
    | .lineThrough => "line-through"

/-- The style of the line that decorates a text. -/
inductive TextDecorationStyle where
  | solid
  | double
  | dotted
  | dashed
  | wavy
  deriving DecidableEq, Repr

instance : Keyword TextDecorationStyle where
  text
    | .solid => "solid"
    | .double => "double"
    | .dotted => "dotted"
    | .dashed => "dashed"
    | .wavy => "wavy"

/-- The marker of a list item. -/
inductive ListStyleType where
  | none
  | disc
  | circle
  | square
  | decimal
  deriving DecidableEq, Repr

instance : Keyword ListStyleType where
  text
    | .none => "none"
    | .disc => "disc"
    | .circle => "circle"
    | .square => "square"
    | .decimal => "decimal"

/-- The place of the marker of a list item. -/
inductive ListStylePosition where
  | inside
  | outside
  deriving DecidableEq, Repr

instance : Keyword ListStylePosition where
  text
    | .inside => "inside"
    | .outside => "outside"

end Cascade
