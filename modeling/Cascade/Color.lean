import Cascade.Text.Space

/-! # Colors

A color is one of three keywords or a text: a name, a hexadecimal number or a function call. A
color whose text is empty stands for no declaration at all. -/

namespace Cascade

/-- A CSS color. -/
inductive Color where
  | inherit
  | transparent
  | currentColor
  | named (name : String)
  | hex (digits : String)
  | function (call : String)
  deriving DecidableEq, Repr

namespace Color

/-! ### Hexadecimal colors -/

/-- The text of a hexadecimal color without the white space around it and the number signs in front
of it. -/
def hexDigits (cs : List Char) : List Char :=
  (Text.trim cs).dropWhile (· == '#')

/-- The two hexadecimal digits of a byte. -/
def hexByte (b : UInt8) : List Char :=
  [Nat.digitChar (b.toNat / 16), Nat.digitChar (b.toNat % 16)]

/-- The opaque color with the given red, green and blue channels. -/
def rgb (r g b : UInt8) : Color :=
  hex (String.ofList ('#' :: (hexByte r ++ hexByte g ++ hexByte b)))

/-! ### Text -/

/-- The CSS text of a color, unless it is empty. -/
def css? : Color → Option String
  | inherit => some "inherit"
  | transparent => some "transparent"
  | currentColor => some "currentColor"
  | named text | function text => Text.nonBlank? text
  | hex text =>
    match hexDigits text.toList with
    | [] => none
    | digits => some (String.ofList ('#' :: digits))

end Color

end Cascade
