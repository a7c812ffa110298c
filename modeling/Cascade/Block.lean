import Cascade.Sheet
import Cascade.Traced

/-! # Blocks

A block is what a rule amounts to: its selector and its declarations in the order in which they are
written. First come the declarations of the slots, in the order of the slots, then the rule's own
ones, so that these can override the former. -/

namespace Cascade

/-- A selector and the declarations for it. -/
structure Block where
  selector : String
  declarations : List Declaration
  deriving DecidableEq, Repr

/-- The declarations of an assignment. A slot that stands for one property and is left without a
declaration is reported. -/
def Slot.declare (s : Slot) (v : Value) : Traced (List Declaration) := do
  let ds ← .ofExcept (s.resolve v)
  if ds.isEmpty && !s.isComposite then
    .report (.omitted s)
  return ds

namespace Rule

/-- Refuses a rule with a blank selector. -/
def requireSelector (r : Rule) (index : Nat) : Except Error Unit :=
  if Text.isBlank r.selector then .error (.blankSelector index) else .ok ()

/-- Refuses a rule with a declaration of its own whose name is not an identifier. -/
def requireNames (r : Rule) : Except Error Unit := r.custom.forM Declaration.requireName

/-- The declarations of the slots of a rule. -/
def typed (r : Rule) : Traced (List Declaration) :=
  List.flatten <$> r.props.entries.mapM fun e => e.1.declare e.2

/-- The block of the rule with an index. -/
def block (r : Rule) (options : Options) (index : Nat) : Traced Block := do
  .ofExcept (r.requireSelector index)
  let typed ← r.typed
  if options.validateNames then
    .ofExcept r.requireNames
  return ⟨r.selector, typed ++ r.custom⟩

/-- The block of the rule with an index, reporting the rule if it is refused. -/
def reportedBlock (r : Rule) (options : Options) (index : Nat) : Traced Block :=
  (r.block options index).reportError (.failed index r.selector)

/-- The blocks of some rules whose indices begin at the given one. The rules after the first one
that is refused are not looked at. -/
def blocksFrom (start : Nat) (rules : List Rule) (options : Options) : Traced (List Block) :=
  (rules.zipIdx start).mapM fun r => r.1.reportedBlock options r.2

theorem blocksFrom_cons (start : Nat) (r : Rule) (rules : List Rule) (options : Options) :
    blocksFrom start (r :: rules) options = do
      let b ← r.reportedBlock options start
      let bs ← blocksFrom (start + 1) rules options
      return b :: bs := by
  rw [blocksFrom, List.zipIdx_cons, List.mapM_cons]
  rfl

theorem blocksFrom_append (start : Nat) (rules others : List Rule) (options : Options) :
    blocksFrom start (rules ++ others) options = do
      let bs ← blocksFrom start rules options
      let cs ← blocksFrom (start + rules.length) others options
      return bs ++ cs := by
  rw [blocksFrom, List.zipIdx_append, List.mapM_append]
  rfl

end Rule

/-- The blocks of the rules of a sheet. -/
def Sheet.blocks (sheet : Sheet) (options : Options) : Traced (List Block) :=
  Rule.blocksFrom 0 sheet.rules options

end Cascade
