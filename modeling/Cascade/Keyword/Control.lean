import Cascade.Keyword.Basic

/-! # Keywords of controls

The look of native controls and of the cursor over an element. -/

namespace Cascade

/-- The native look of a control. -/
inductive Appearance where
  | none
  | auto
  | button
  | textfield
  | menulistButton
  deriving DecidableEq, Repr

instance : Keyword Appearance where
  text
    | .none => "none"
    | .auto => "auto"
    | .button => "button"
    | .textfield => "textfield"
    | .menulistButton => "menulist-button"

/-- The shape of the cursor over an element. -/
inductive Cursor where
  | auto
  | default
  | pointer
  | text
  | move
  | notAllowed
  | wait
  | progress
  | help
  | crosshair
  | grab
  | grabbing
  deriving DecidableEq, Repr

instance : Keyword Cursor where
  text
    | .auto => "auto"
    | .default => "default"
    | .pointer => "pointer"
    | .text => "text"
    | .move => "move"
    | .notAllowed => "not-allowed"
    | .wait => "wait"
    | .progress => "progress"
    | .help => "help"
    | .crosshair => "crosshair"
    | .grab => "grab"
    | .grabbing => "grabbing"

end Cascade
