import Cascade.Keyword.Basic

/-! # Keywords of fonts

Font stacks, styles and weights. -/

namespace Cascade

/-- A generic font stack. -/
inductive FontFamily where
  | sans
  | serif
  | mono
  deriving DecidableEq, Repr

instance : Keyword FontFamily where
  text
    | .sans => "ui-sans-serif, system-ui, sans-serif, \"Apple Color Emoji\", " ++
        "\"Segoe UI Emoji\", \"Segoe UI Symbol\", \"Noto Color Emoji\""
    | .serif => "ui-serif, Georgia, Cambria, \"Times New Roman\", Times, serif"
    | .mono => "ui-monospace, SFMono-Regular, Menlo, Monaco, Consolas, " ++
        "\"Liberation Mono\", \"Courier New\", monospace"

/-- The slant of a font. -/
inductive FontStyle where
  | normal
  | italic
  | oblique
  deriving DecidableEq, Repr

instance : Keyword FontStyle where
  text
    | .normal => "normal"
    | .italic => "italic"
    | .oblique => "oblique"

/-- The weight of a font; `bolder` and `lighter` are relative to the parent's. -/
inductive FontWeight where
  | thin
  | extraLight
  | light
  | normal
  | medium
  | semiBold
  | bold
  | extraBold
  | black
  | bolder
  | lighter
  deriving DecidableEq, Repr

instance : Keyword FontWeight where
  text
    | .thin => "100"
    | .extraLight => "200"
    | .light => "300"
    | .normal => "400"
    | .medium => "500"
    | .semiBold => "600"
    | .bold => "700"
    | .extraBold => "800"
    | .black => "900"
    | .bolder => "bolder"
    | .lighter => "lighter"

end Cascade
