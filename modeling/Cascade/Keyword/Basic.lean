/-! # Keywords

A family of keywords is a finite type with a CSS text for each of its members. -/

namespace Cascade

/-- A family of keywords. -/
class Keyword (α : Type) where
  /-- The CSS text of a keyword. -/
  text : α → String

end Cascade
