import Cascade.PropSet.Basic

/-! # Edits of property sets

The ways to change a property set, as data, and runs of them. -/

namespace Cascade.PropSet

/-- A change of a property set. -/
inductive Edit where
  /-- A slot gets a value. -/
  | assign (slot : Slot) (value : Value)
  /-- A slot loses its value. -/
  | remove (slot : Slot)
  /-- Another set is merged in. -/
  | merge (other : PropSet)
  /-- The set is replaced by the one collected from some assignments. -/
  | collect (entries : List (Slot × Value))

/-- The set after a change. -/
def edit (p : PropSet) : Edit → PropSet
  | .assign s v => p.insert s v
  | .remove s => p.erase s
  | .merge q => p.merge q
  | .collect es => ofList es

/-- The set after some changes in turn. -/
def editMany (p : PropSet) (changes : List Edit) : PropSet := changes.foldl edit p

end Cascade.PropSet
