import Cascade.Value

/-! # Slots

A slot is a property with a known name and a known kind of values. The order of the slots is the
order in which a rule's declarations are written. -/

namespace Cascade

/-! ### Kinds of slots -/

/-- The kind of values of a slot. -/
inductive SlotKind where
  | keyword
  | length
  | color
  | border
  deriving DecidableEq, Repr

namespace SlotKind

/-- The name of a kind of slots. -/
def text : SlotKind → String
  | keyword => "keyword"
  | length => "length"
  | color => "color"
  | border => "border"

/-- Whether slots of a kind take values of a kind. All but the border slot take keywords and raw
text besides their own kind. -/
def accepts : SlotKind → ValueKind → Bool
  | keyword, .keyword | keyword, .raw => true
  | length, .length | length, .keyword | length, .raw => true
  | color, .color | color, .keyword | color, .raw => true
  | border, .border => true
  | _, _ => false

/-- Whether slots of a kind stand for several properties. -/
def isComposite : SlotKind → Bool
  | border => true
  | _ => false

end SlotKind

/-! ### Slots -/

/-- A property. -/
inductive Slot where
  | appearance
  | backgroundColor
  | border
  | borderCollapse
  | borderColor
  | borderRadius
  | borderStyle
  | borderWidth
  | bottom
  | boxSizing
  | color
  | cursor
  | display
  | fontFamily
  | fontSize
  | fontStyle
  | fontWeight
  | height
  | left
  | letterSpacing
  | lineHeight
  | listStylePosition
  | listStyleType
  | margin
  | maxHeight
  | maxWidth
  | minHeight
  | minWidth
  | opacity
  | padding
  | position
  | right
  | textAlign
  | textDecorationColor
  | textDecorationLine
  | textDecorationStyle
  | textIndent
  | top
  | verticalAlign
  | width
  | zIndex
  deriving DecidableEq, Repr

namespace Slot

/-- All slots, in their order. -/
def all : List Slot :=
  [appearance, backgroundColor, border, borderCollapse, borderColor, borderRadius, borderStyle,
    borderWidth, bottom, boxSizing, color, cursor, display, fontFamily, fontSize, fontStyle,
    fontWeight, height, left, letterSpacing, lineHeight, listStylePosition, listStyleType, margin,
    maxHeight, maxWidth, minHeight, minWidth, opacity, padding, position, right, textAlign,
    textDecorationColor, textDecorationLine, textDecorationStyle, textIndent, top, verticalAlign,
    width, zIndex]

/-- The name of the property. -/
def name : Slot → String
  | appearance => "appearance"
  | backgroundColor => "background-color"
  | border => "border"
  | borderCollapse => "border-collapse"
  | borderColor => "border-color"
  | borderRadius => "border-radius"
  | borderStyle => "border-style"
  | borderWidth => "border-width"
  | bottom => "bottom"
  | boxSizing => "box-sizing"
  | color => "color"
  | cursor => "cursor"
  | display => "display"
  | fontFamily => "font-family"
  | fontSize => "font-size"
  | fontStyle => "font-style"
  | fontWeight => "font-weight"
  | height => "height"
  | left => "left"
  | letterSpacing => "letter-spacing"
  | lineHeight => "line-height"
  | listStylePosition => "list-style-position"
  | listStyleType => "list-style-type"
  | margin => "margin"
  | maxHeight => "max-height"
  | maxWidth => "max-width"
  | minHeight => "min-height"
  | minWidth => "min-width"
  | opacity => "opacity"
  | padding => "padding"
  | position => "position"
  | right => "right"
  | textAlign => "text-align"
  | textDecorationColor => "text-decoration-color"
  | textDecorationLine => "text-decoration-line"
  | textDecorationStyle => "text-decoration-style"
  | textIndent => "text-indent"
  | top => "top"
  | verticalAlign => "vertical-align"
  | width => "width"
  | zIndex => "z-index"

/-- The kind of values of a slot. -/
def kind : Slot → SlotKind
  | border => .border
  | backgroundColor | borderColor | color | textDecorationColor => .color
  | appearance | borderCollapse | borderStyle | boxSizing | cursor | display | fontFamily
  | fontStyle | fontWeight | listStylePosition | listStyleType | position | textAlign
  | textDecorationLine | textDecorationStyle | verticalAlign => .keyword
  | borderRadius | borderWidth | bottom | fontSize | height | left | letterSpacing | lineHeight
  | margin | maxHeight | maxWidth | minHeight | minWidth | opacity | padding | right | textIndent
  | top | width | zIndex => .length

/-- Whether a slot stands for several properties. -/
def isComposite (s : Slot) : Bool := s.kind.isComposite

/-- Whether a slot takes a value. -/
def accepts (s : Slot) (v : Value) : Bool := s.kind.accepts v.kind

/-- The slot with the given name. -/
def ofName? (name : String) : Option Slot := all.find? (·.name == name)

/-! ### The order -/

/-- The place of a slot among all slots. -/
def index (s : Slot) : Nat := s.ctorIdx

instance : LT Slot := ⟨fun s t => s.index < t.index⟩

instance (s t : Slot) : Decidable (s < t) := inferInstanceAs (Decidable (s.index < t.index))

instance : Ord Slot := ⟨fun s t => compare s.index t.index⟩

theorem lt_iff {s t : Slot} : s < t ↔ s.index < t.index := Iff.rfl

theorem getElem?_all (s : Slot) : all[s.index]? = some s := by cases s <;> rfl

theorem index_injective {s t : Slot} (h : s.index = t.index) : s = t := by
  have hs := getElem?_all s
  rw [h, getElem?_all t] at hs
  exact (Option.some.inj hs).symm

theorem lt_trans {s t u : Slot} (h : s < t) (h' : t < u) : s < u := Nat.lt_trans h h'

theorem lt_irrefl (s : Slot) : ¬ s < s := Nat.lt_irrefl _

theorem lt_or_eq_or_lt (s t : Slot) : s < t ∨ s = t ∨ t < s := by
  rcases Nat.lt_trichotomy s.index t.index with h | h | h
  · exact .inl h
  · exact .inr (.inl (index_injective h))
  · exact .inr (.inr h)

theorem mem_all (s : Slot) : s ∈ all := List.mem_of_getElem? (getElem?_all s)

theorem pairwise_all : all.Pairwise (· < ·) := by decide

/-! ### Names -/

theorem ofName?_name (s : Slot) : ofName? s.name = some s := by cases s <;> rfl

theorem ofName?_eq_some_iff {name : String} {s : Slot} : ofName? name = some s ↔ s.name = name := by
  constructor
  · intro h
    have hname := List.find?_some h
    exact eq_of_beq hname
  · rintro rfl
    exact ofName?_name s

end Slot

end Cascade
