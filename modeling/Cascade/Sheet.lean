import Cascade.Rule

/-! # Sheets

A sheet is a list of rules. Their order matters, and no two of them are ever merged, even if they
have the same selector. -/

namespace Cascade

/-- A list of rules. -/
structure Sheet where
  rules : List Rule := []
  deriving BEq, Inhabited

namespace Sheet

/-- The number of rules. -/
def size (sheet : Sheet) : Nat := sheet.rules.length

/-- Whether there are no rules. -/
def isEmpty (sheet : Sheet) : Bool := sheet.rules.isEmpty

/-- The sheet with a rule after its own. -/
def push (sheet : Sheet) (r : Rule) : Sheet := ⟨sheet.rules ++ [r]⟩

/-- The sheet with some rules after its own. -/
def extend (sheet : Sheet) (rs : List Rule) : Sheet := ⟨sheet.rules ++ rs⟩

/-- The rules of a sheet and then those of another. -/
def append (sheet other : Sheet) : Sheet := sheet.extend other.rules

instance : Append Sheet := ⟨append⟩

/-- The selectors of the rules. -/
def selectors (sheet : Sheet) : List String := sheet.rules.map Rule.selector

/-- The rule with an index. -/
def rule? (sheet : Sheet) (index : Nat) : Option Rule := sheet.rules[index]?

/-- The sheet with the rule at an index changed. -/
def modify (sheet : Sheet) (index : Nat) (change : Rule → Rule) : Sheet :=
  ⟨sheet.rules.modify index change⟩

/-- The sheet of only the rule with an index, which is empty if there is none. -/
def only (sheet : Sheet) (index : Nat) : Sheet := ⟨(sheet.rule? index).toList⟩

end Sheet

end Cascade
