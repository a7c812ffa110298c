import Cascade.PropSet.Edit
import Cascade.Registry

/-! # Sessions on named property sets

A session keeps a property set for every name. Each of its steps is about one of the sets, its
target, and has an answer; only the target can change. -/

namespace Cascade.PropSet

/-- Property sets by name, all empty at first. -/
abbrev Session := Registry PropSet

namespace Session

/-- A step of a session. -/
inductive Step where
  | assign (target : String) (slot : Slot) (value : Value)
  | get (target : String) (slot : Slot)
  | remove (target : String) (slot : Slot)
  | contains (target : String) (slot : Slot)
  | size (target : String)
  | isEmpty (target : String)
  | merge (target source : String)
  | equal (target other : String)
  | collect (target : String) (entries : List (Slot × Value))

/-- The answer to a step. -/
inductive Answer where
  | value (value? : Option Value)
  | flag (holds : Bool)
  | count (n : Nat)
  | done

/-- The set that a step is about. -/
def Step.target : Step → String
  | assign target _ _ | get target _ | remove target _ | contains target _ | size target
  | isEmpty target | merge target _ | equal target _ | collect target _ => target

/-- The change that a step makes to its target. -/
def Step.change? (σ : Session) : Step → Option Edit
  | assign _ s v => some (.assign s v)
  | remove _ s => some (.remove s)
  | merge _ source => some (.merge (σ.get source))
  | collect _ es => some (.collect es)
  | get .. | contains .. | size .. | isEmpty .. | equal .. => none

/-- The answer to a step, from the sets before it. -/
def Step.answer (σ : Session) : Step → Answer
  | assign target s _ | get target s | remove target s => .value ((σ.get target).get? s)
  | contains target s => .flag ((σ.get target).contains s)
  | size target => .count (σ.get target).size
  | isEmpty target => .flag (σ.get target).isEmpty
  | equal target other => .flag (σ.get target == σ.get other)
  | merge .. | collect .. => .done

/-- The session after a step. -/
def step (σ : Session) (a : Step) : Session :=
  match a.change? σ with
  | none => σ
  | some change => σ.set a.target ((σ.get a.target).edit change)

/-- The session after some steps in turn. -/
def run (σ : Session) (steps : List Step) : Session := steps.foldl step σ

end Session

end Cascade.PropSet
