import Cascade.Error
import Cascade.Options

/-! # Events

What a compilation reports while it runs. -/

namespace Cascade

/-- The severity of an event. -/
inductive Level where
  | trace
  | debug
  | warn
  deriving DecidableEq, Repr

/-- The name of a level. -/
def Level.text : Level → String
  | trace => "TRACE"
  | debug => "DEBUG"
  | warn => "WARN"

/-- A report of a compilation. -/
inductive Event where
  /-- The compilation of so many rules begins. -/
  | compiling (rules : Nat) (format : Format)
  /-- A slot is left out because its value has no text. -/
  | omitted (slot : Slot)
  /-- The rule with the index is refused. -/
  | failed (index : Nat) (selector : String) (error : Error)
  /-- So many rules with so many declarations have been written. -/
  | compiled (rules declarations : Nat)
  deriving DecidableEq, Repr

namespace Event

/-- The level of an event. -/
def level : Event → Level
  | compiling .. | compiled .. => .debug
  | omitted _ => .trace
  | failed .. => .warn

/-- The wording of an event. -/
def message : Event → String
  | compiling .. => "compiling stylesheet"
  | omitted _ => "omitting empty value"
  | failed .. => "rule failed to compile"
  | compiled .. => "compiled stylesheet"

/-- The fields of an event besides its wording, by name. -/
def fields : Event → List (String × String)
  | compiling rules format => [("rules", toString rules), ("format", format.text)]
  | omitted slot => [("property", slot.name)]
  | failed index selector error =>
    [("index", toString index), ("selector", selector), ("error", error.message)]
  | compiled rules declarations =>
    [("rules", toString rules), ("declarations", toString declarations)]

end Event

end Cascade
