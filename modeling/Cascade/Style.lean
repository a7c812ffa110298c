import Cascade.Keyword.Control
import Cascade.Keyword.Font
import Cascade.Keyword.Inline
import Cascade.PropSet.Basic

/-! # Typed assignments

Every slot has a type of arguments that make sense for it. A *setting* assigns such an argument, the
keyword `inherit`, or any value at all to a slot. -/

namespace Cascade

/-- The type of the arguments of a slot. -/
abbrev Slot.Arg : Slot → Type
  | .appearance => Appearance
  | .border => Border
  | .borderCollapse => BorderCollapse
  | .borderStyle => BorderStyle
  | .boxSizing => BoxSizing
  | .cursor => Cursor
  | .display => Display
  | .fontFamily => FontFamily
  | .fontStyle => FontStyle
  | .fontWeight => FontWeight
  | .listStylePosition => ListStylePosition
  | .listStyleType => ListStyleType
  | .position => Position
  | .textAlign => TextAlign
  | .textDecorationLine => TextDecorationLine
  | .textDecorationStyle => TextDecorationStyle
  | .verticalAlign => VerticalAlign
  | .backgroundColor | .borderColor | .color | .textDecorationColor => Color
  | .borderRadius | .borderWidth | .bottom | .fontSize | .height | .left | .letterSpacing
  | .lineHeight | .margin | .maxHeight | .maxWidth | .minHeight | .minWidth | .padding | .right
  | .textIndent | .top | .width => Length
  | .opacity => Binary64
  | .zIndex => Int32

/-- The value that an argument of a slot stands for. Opacities and stacking orders are bare
numbers. -/
def Slot.ofArg : (s : Slot) → s.Arg → Value
  | .appearance, a => .ofKeyword a
  | .border, a => .border a
  | .borderCollapse, a => .ofKeyword a
  | .borderStyle, a => .ofKeyword a
  | .boxSizing, a => .ofKeyword a
  | .cursor, a => .ofKeyword a
  | .display, a => .ofKeyword a
  | .fontFamily, a => .ofKeyword a
  | .fontStyle, a => .ofKeyword a
  | .fontWeight, a => .ofKeyword a
  | .listStylePosition, a => .ofKeyword a
  | .listStyleType, a => .ofKeyword a
  | .position, a => .ofKeyword a
  | .textAlign, a => .ofKeyword a
  | .textDecorationLine, a => .ofKeyword a
  | .textDecorationStyle, a => .ofKeyword a
  | .verticalAlign, a => .ofKeyword a
  | .backgroundColor, a | .borderColor, a | .color, a | .textDecorationColor, a => .color a
  | .borderRadius, a | .borderWidth, a | .bottom, a | .fontSize, a | .height, a | .left, a
  | .letterSpacing, a | .lineHeight, a | .margin, a | .maxHeight, a | .maxWidth, a
  | .minHeight, a | .minWidth, a | .padding, a | .right, a | .textIndent, a | .top, a
  | .width, a => .length a
  | .opacity, a => .ofNumber a
  | .zIndex, a => .ofNumber (.ofInt a.toInt)

namespace Style

/-- An assignment to a slot. -/
inductive Setting where
  /-- An argument of the slot's own type. -/
  | put (slot : Slot) (arg : slot.Arg)
  /-- The keyword `inherit`. -/
  | inherit (slot : Slot)
  /-- Any value; whether the slot takes it is seen when it is resolved. -/
  | set (slot : Slot) (value : Value)

namespace Setting

/-- The slot of a setting. -/
def slot : Setting → Slot
  | put s _ | inherit s | set s _ => s

/-- The value that a setting assigns. -/
def value : Setting → Value
  | put s a => s.ofArg a
  | inherit _ => .inherit
  | set _ v => v

/-! ### The settings of the slots by name

Every slot has a setting of its own name. -/

def margin (a : Length) : Setting := .put .margin a
def padding (a : Length) : Setting := .put .padding a
def boxSizing (a : BoxSizing) : Setting := .put .boxSizing a
def border (a : Border) : Setting := .put .border a
def borderWidth (a : Length) : Setting := .put .borderWidth a
def borderStyle (a : BorderStyle) : Setting := .put .borderStyle a
def borderColor (a : Color) : Setting := .put .borderColor a
def borderRadius (a : Length) : Setting := .put .borderRadius a
def borderCollapse (a : BorderCollapse) : Setting := .put .borderCollapse a

def width (a : Length) : Setting := .put .width a
def height (a : Length) : Setting := .put .height a
def minWidth (a : Length) : Setting := .put .minWidth a
def minHeight (a : Length) : Setting := .put .minHeight a
def maxWidth (a : Length) : Setting := .put .maxWidth a
def maxHeight (a : Length) : Setting := .put .maxHeight a

def display (a : Display) : Setting := .put .display a
def position (a : Position) : Setting := .put .position a
def top (a : Length) : Setting := .put .top a
def right (a : Length) : Setting := .put .right a
def bottom (a : Length) : Setting := .put .bottom a
def left (a : Length) : Setting := .put .left a
def zIndex (a : Int32) : Setting := .put .zIndex a
def verticalAlign (a : VerticalAlign) : Setting := .put .verticalAlign a

def fontFamily (a : FontFamily) : Setting := .put .fontFamily a
def fontSize (a : Length) : Setting := .put .fontSize a
def fontStyle (a : FontStyle) : Setting := .put .fontStyle a
def fontWeight (a : FontWeight) : Setting := .put .fontWeight a
def lineHeight (a : Length) : Setting := .put .lineHeight a
def letterSpacing (a : Length) : Setting := .put .letterSpacing a
def color (a : Color) : Setting := .put .color a
def textAlign (a : TextAlign) : Setting := .put .textAlign a
def textIndent (a : Length) : Setting := .put .textIndent a
def textDecorationLine (a : TextDecorationLine) : Setting := .put .textDecorationLine a
def textDecorationStyle (a : TextDecorationStyle) : Setting := .put .textDecorationStyle a
def textDecorationColor (a : Color) : Setting := .put .textDecorationColor a
def listStyleType (a : ListStyleType) : Setting := .put .listStyleType a
def listStylePosition (a : ListStylePosition) : Setting := .put .listStylePosition a

def backgroundColor (a : Color) : Setting := .put .backgroundColor a
def opacity (a : Binary64) : Setting := .put .opacity a
def cursor (a : Cursor) : Setting := .put .cursor a
def appearance (a : Appearance) : Setting := .put .appearance a

end Setting

/-- The property set with a setting made. -/
def apply (p : PropSet) (a : Setting) : PropSet := p.insert a.slot a.value

end Style

/-- The property set of some settings made in turn. -/
def PropSet.ofSettings (settings : List Style.Setting) : PropSet :=
  settings.foldl Style.apply empty

end Cascade
