/-! # White space

The characters with the Unicode property White_Space, and what it means for a text to be blank or
trimmed. `isBlank_iff_trim_eq_nil` says that a text is blank exactly when trimming leaves nothing
of it. -/

namespace Cascade.Text

/-- The code points with the property White_Space, as closed intervals. -/
def spaceRanges : List (Nat × Nat) :=
  [(0x09, 0x0d), (0x20, 0x20), (0x85, 0x85), (0xa0, 0xa0), (0x1680, 0x1680), (0x2000, 0x200a),
    (0x2028, 0x2029), (0x202f, 0x202f), (0x205f, 0x205f), (0x3000, 0x3000)]

/-- A character with the property White_Space. -/
def isSpace (c : Char) : Bool :=
  spaceRanges.any fun r => r.1 ≤ c.toNat && c.toNat ≤ r.2

/-- The text without the white space at its end. -/
def trimRight (cs : List Char) : List Char :=
  (cs.reverse.dropWhile isSpace).reverse

/-- The text without the white space at both ends. -/
def trim (cs : List Char) : List Char :=
  trimRight (cs.dropWhile isSpace)

/-- A text of white space only, the empty text included. -/
def isBlank (s : String) : Bool :=
  s.toList.all isSpace

/-- The text itself, unless it is blank. -/
def nonBlank? (s : String) : Option String :=
  if isBlank s then none else some s

/-! ### Blank texts -/

theorem dropWhile_isSpace_eq_nil_iff {cs : List Char} :
    cs.dropWhile isSpace = [] ↔ ∀ c ∈ cs, isSpace c = true := by
  induction cs with
  | nil => simp
  | cons c cs ih => by_cases h : isSpace c = true <;> simp [h, ih]

theorem trimRight_eq_nil_iff {cs : List Char} : trimRight cs = [] ↔ ∀ c ∈ cs, isSpace c = true := by
  rw [trimRight, List.reverse_eq_nil_iff, dropWhile_isSpace_eq_nil_iff]
  simp

theorem trim_eq_nil_iff {cs : List Char} : trim cs = [] ↔ ∀ c ∈ cs, isSpace c = true := by
  rw [trim, trimRight_eq_nil_iff]
  induction cs with
  | nil => simp
  | cons c cs ih =>
    by_cases h : isSpace c = true
    · simp [h, ih]
    · rw [List.dropWhile_cons_of_neg h]

theorem isBlank_iff_trim_eq_nil {s : String} : isBlank s = true ↔ trim s.toList = [] := by
  simp [isBlank, trim_eq_nil_iff]

end Cascade.Text
