import Cascade.Text.Space

/-! # Identifiers

Reading a CSS identifier. Around an identifier there may be *gaps*: white space and comments. In it
there may be escapes, a backslash with up to six hexadecimal digits or any one character after it.
The end of the text closes a comment or an escape that is still open. -/

namespace Cascade.Identifier

/-! ### Characters -/

/-- A character that ends a line. -/
def isNewline (c : Char) : Bool := c == '\n' || c == '\x0c' || c == '\r'

/-- A character of the white space between tokens. -/
def isSeparator (c : Char) : Bool := c == ' ' || c == '\t' || isNewline c

/-- A digit of a hexadecimal number. -/
def isHex (c : Char) : Bool :=
  c.isDigit || ('a' ≤ c && c ≤ 'f') || ('A' ≤ c && c ≤ 'F')

/-- A character, other than a backslash, that an identifier may begin with. -/
def isNameStart (c : Char) : Bool :=
  c.isAlpha || c == '_' || c == '\x00' || 0x80 ≤ c.toNat

/-- A character, other than a backslash, that an identifier may have after its beginning. -/
def isNameChar (c : Char) : Bool := isNameStart c || c.isDigit || c == '-'

/-! ### Gaps -/

/-- The text after the white space and comments at its beginning, or, where the flag says so, after
the comment it begins inside of. -/
@[grind =]
def skipGap : Bool → List Char → List Char
  | _, [] => []
  | true, '*' :: '/' :: cs => skipGap false cs
  | true, _ :: cs => skipGap true cs
  | false, '/' :: '*' :: cs => skipGap true cs
  | false, c :: cs => if isSeparator c then skipGap false cs else c :: cs

/-! ### Names -/

/-- Whether a backslash before the text begins an escape. -/
def opensEscape : List Char → Bool
  | [] => true
  | c :: _ => !isNewline c

/-- Whether the text begins with a character or an escape that a name may begin with. -/
def startsName : List Char → Bool
  | [] => false
  | '\\' :: cs => opensEscape cs
  | c :: _ => isNameStart c

/-- Whether the text begins with an identifier. A hyphen needs a second one or the beginning of a
name after it. -/
def startsIdentifier : List Char → Bool
  | '-' :: '-' :: _ => true
  | '-' :: cs => startsName cs
  | cs => startsName cs

/-- A place inside a name. -/
inductive Place where
  /-- Between two characters of the name. -/
  | between
  /-- After a backslash. -/
  | escape
  /-- In an escape that may have so many more hexadecimal digits. -/
  | hex (more : Nat)
  /-- After the carriage return that closes an escape. -/
  | carriageReturn
  deriving DecidableEq, Repr

/-- The place after the character, if it continues the name from a place between two characters. -/
def Place.afterPlain (c : Char) (cs : List Char) : Option Place :=
  if c = '\\' then (if opensEscape cs then some escape else none)
  else if isNameChar c then some between
  else none

/-- The place after the character, if it continues the name; the characters after it are given too.
A hexadecimal escape takes one white space after it, and then a carriage return takes the line feed
after it along. -/
def Place.after (c : Char) (cs : List Char) : Place → Option Place
  | between => afterPlain c cs
  | escape => some (if isHex c then hex 5 else between)
  | hex more =>
    if isHex c && more != 0 then some (hex (more - 1))
    else if c = '\r' then some carriageReturn
    else if isSeparator c then some between
    else afterPlain c cs
  | carriageReturn => if c = '\n' then some between else afterPlain c cs

/-- The rest of a name from a place inside it, and the text after the name. -/
def splitName (place : Place) : List Char → List Char × List Char
  | [] => ([], [])
  | c :: cs =>
    match place.after c cs with
    | some next => let (name, rest) := splitName next cs; (c :: name, rest)
    | none => ([], c :: cs)

theorem splitName_append (place : Place) (cs : List Char) :
    (splitName place cs).1 ++ (splitName place cs).2 = cs := by
  induction cs generalizing place with
  | nil => rfl
  | cons c cs ih =>
    unfold splitName
    split
    · next after _ => exact congrArg (c :: ·) (ih after)
    · rfl

/-- The identifier that comes after a gap, and the text after it. -/
def read? (cs : List Char) : Option (List Char × List Char) :=
  let cs := skipGap false cs
  if startsIdentifier cs then some (splitName .between cs) else none

/-! ### Valid names -/

/-- Whether a text is one identifier with gaps around it, of which none begins or ends with white
space of any kind. -/
def isValid (name : String) : Bool :=
  let cs := name.toList
  cs != [] && Text.trim cs == cs &&
    match read? cs with
    | some (_, rest) => skipGap false rest == []
    | none => false

end Cascade.Identifier
