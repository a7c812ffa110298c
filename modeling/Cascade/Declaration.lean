import Cascade.Error

/-! # Declarations

A declaration is a property name and a text for its value. Setting a slot to a value amounts to a
list of declarations: at most one under the slot's own name, or, for a border, one for each of its
parts that has a text. -/

namespace Cascade

/-- A property name and the text of its value. -/
structure Declaration where
  name : String
  value : String
  deriving DecidableEq, Repr

/-- The text of a declaration. -/
def Declaration.text (d : Declaration) : String := d.name ++ ":" ++ d.value

/-- Refuses a length for a slot if its magnitude is not finite. -/
def Length.requireFinite (l : Length) (slot : Slot) : Except Error Unit :=
  match l.nonFinite? with
  | none => .ok ()
  | some defect => .error (.notFinite slot defect)

namespace Border

/-- The declarations of the width of a border. -/
def widthDeclarations (b : Border) : Except Error (List Declaration) :=
  match b.width? with
  | none => .ok []
  | some width => do
    width.requireFinite .borderWidth
    return [⟨"border-width", width.css⟩]

/-- The declarations of the line style of a border. -/
def styleDeclarations (b : Border) : List Declaration :=
  match b.style? with
  | none => []
  | some style => [⟨"border-style", Keyword.text style⟩]

/-- The declarations of the color of a border. -/
def colorDeclarations (b : Border) : List Declaration :=
  match b.color?.bind Color.css? with
  | none => []
  | some text => [⟨"border-color", text⟩]

/-- The declarations that a border stands for. -/
def declarations (b : Border) : Except Error (List Declaration) := do
  let width ← b.widthDeclarations
  return width ++ b.styleDeclarations ++ b.colorDeclarations

end Border

namespace Slot

/-- The declarations of a slot that stands for one property. -/
def plain (s : Slot) (v : Value) : List Declaration :=
  match v.css? with
  | none => []
  | some text => [⟨s.name, text⟩]

/-- The declarations that setting a slot to a value amounts to. The kind of the value is checked
before its content. -/
def resolve (s : Slot) (v : Value) : Except Error (List Declaration) :=
  if s.accepts v then
    match v with
    | .border b => b.declarations
    | .length l => do
      l.requireFinite s
      return s.plain v
    | _ => .ok (s.plain v)
  else .error (.kindMismatch s v.kind)

end Slot

end Cascade
