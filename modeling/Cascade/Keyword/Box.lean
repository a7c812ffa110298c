import Cascade.Keyword.Basic

/-! # Keywords of boxes

How a box is displayed, sized, placed and aligned, and how its borders are drawn. -/

namespace Cascade

/-- How an element and its children are laid out. -/
inductive Display where
  | none
  | block
  | inline
  | inlineBlock
  | flex
  | inlineFlex
  | grid
  | inlineGrid
  | flowRoot
  | contents
  | listItem
  | table
  | tableRow
  | tableCell
  deriving DecidableEq, Repr

instance : Keyword Display where
  text
    | .none => "none"
    | .block => "block"
    | .inline => "inline"
    | .inlineBlock => "inline-block"
    | .flex => "flex"
    | .inlineFlex => "inline-flex"
    | .grid => "grid"
    | .inlineGrid => "inline-grid"
    | .flowRoot => "flow-root"
    | .contents => "contents"
    | .listItem => "list-item"
    | .table => "table"
    | .tableRow => "table-row"
    | .tableCell => "table-cell"

/-- What the size of a box measures. -/
inductive BoxSizing where
  | borderBox
  | contentBox
  deriving DecidableEq, Repr

instance : Keyword BoxSizing where
  text
    | .borderBox => "border-box"
    | .contentBox => "content-box"

/-- The positioning scheme of a box. -/
inductive Position where
  | static
  | relative
  | absolute
  | fixed
  | sticky
  deriving DecidableEq, Repr

instance : Keyword Position where
  text
    | .static => "static"
    | .relative => "relative"
    | .absolute => "absolute"
    | .fixed => "fixed"
    | .sticky => "sticky"

/-- The vertical alignment of an inline or table cell box. -/
inductive VerticalAlign where
  | baseline
  | top
  | middle
  | bottom
  | textTop
  | textBottom
  | sub
  | super
  deriving DecidableEq, Repr

instance : Keyword VerticalAlign where
  text
    | .baseline => "baseline"
    | .top => "top"
    | .middle => "middle"
    | .bottom => "bottom"
    | .textTop => "text-top"
    | .textBottom => "text-bottom"
    | .sub => "sub"
    | .super => "super"

/-- The line style of a border. -/
inductive BorderStyle where
  | none
  | hidden
  | solid
  | dashed
  | dotted
  | double
  | groove
  | ridge
  | inset
  | outset
  deriving DecidableEq, Repr

instance : Keyword BorderStyle where
  text
    | .none => "none"
    | .hidden => "hidden"
    | .solid => "solid"
    | .dashed => "dashed"
    | .dotted => "dotted"
    | .double => "double"
    | .groove => "groove"
    | .ridge => "ridge"
    | .inset => "inset"
    | .outset => "outset"

/-- The border model of a table. -/
inductive BorderCollapse where
  | collapse
  | separate
  deriving DecidableEq, Repr

instance : Keyword BorderCollapse where
  text
    | .collapse => "collapse"
    | .separate => "separate"

end Cascade
