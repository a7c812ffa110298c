import Cascade.Border

/-! # Values

What a property can be set to. A value with no text stands for no declaration, which is not the
same as a declaration with an empty text. -/

namespace Cascade

/-- What a property is set to. -/
inductive Value where
  | keyword (text : String)
  | raw (text : String)
  | length (length : Length)
  | color (color : Color)
  | border (border : Border)
  deriving BEq, Repr

/-- The kind of a value. -/
inductive ValueKind where
  | keyword
  | length
  | color
  | raw
  | border
  deriving DecidableEq, Repr

/-- The name of a kind of values. -/
def ValueKind.text : ValueKind → String
  | keyword => "keyword"
  | length => "length"
  | color => "color"
  | raw => "raw"
  | border => "border"

namespace Value

/-- The keyword `inherit`. -/
def inherit : Value := keyword "inherit"

/-- A member of a family of keywords as a value. -/
def ofKeyword {α : Type} [Keyword α] (k : α) : Value := keyword (Keyword.text k)

/-- A bare number as a value. -/
def ofNumber (x : Binary64) : Value := length ⟨x, .number⟩

/-- The kind of a value. -/
def kind : Value → ValueKind
  | keyword _ => .keyword
  | raw _ => .raw
  | length _ => .length
  | color _ => .color
  | border _ => .border

/-- The CSS text of a value, unless it is to be omitted. -/
def css? : Value → Option String
  | keyword text | raw text => Text.nonBlank? text
  | length l => some l.css
  | color c => c.css?
  | border b => b.css?

end Value

end Cascade
