import Cascade.Compile
import Cascade.PropSet.Edit
import Cascade.PropSet.Lemmas
import Cascade.Style

/-! # Histories of property sets

A property set is built by settings and edits, one after the other. Each of them leaves a slot with
a value, without one, or as it was, whatever the set holds (`PropSet.get?_edit`). So what a slot
holds in the end is the last effect on it (`PropSet.get?_editMany`). Nothing else of the history can
be seen in the set, or in a sheet with it (`Sheet.writeTo_eq_of_last_effects`). -/

namespace Cascade

namespace PropSet

/-! ### Effects -/

/-- What a change leaves in a slot, if it has an effect on the slot. -/
def Edit.effect? (s : Slot) : Edit → Option (Option Value)
  | .assign t v => if s = t then some (some v) else none
  | .remove t => if s = t then some none else none
  | .merge q => (q.get? s).map some
  | .collect es => some (es.reverse.lookup s)

/-- The effect of the last of some changes that has one on a slot. -/
def lastEffect? (s : Slot) (changes : List Edit) : Option (Option Value) :=
  changes.reverse.findSome? (Edit.effect? s)

variable {p q : PropSet} {s : Slot} {c : Edit} {cs : List Edit}

theorem lastEffect?_cons : lastEffect? s (c :: cs) = (lastEffect? s cs).or (c.effect? s) := by
  rw [lastEffect?, List.reverse_cons, List.findSome?_append, List.findSome?_singleton]
  rfl

/-- **A change leaves in a slot its effect on it**, or else what was there. -/
theorem get?_edit : (p.edit c).get? s = (c.effect? s).getD (p.get? s) := by
  cases c with
  | assign t v =>
    rw [edit, get?_insert, Edit.effect?]
    split <;> rfl
  | remove t =>
    rw [edit, get?_erase, Edit.effect?]
    split <;> rfl
  | merge q =>
    rw [edit, get?_merge, Edit.effect?]
    cases q.get? s <;> rfl
  | collect es => exact get?_ofList

/-- **Changes leave in a slot the last effect on it**, or else what was there. -/
theorem get?_editMany : (p.editMany cs).get? s = (lastEffect? s cs).getD (p.get? s) := by
  induction cs generalizing p with
  | nil => rfl
  | cons c cs ih =>
    rw [editMany, List.foldl_cons, ← editMany, ih, lastEffect?_cons, get?_edit]
    cases lastEffect? s cs <;> rfl

/-! ### Steps -/

/-- A step in the building of a property set. -/
inductive BuildStep where
  /-- An assignment to a slot by the slot's own type, of `inherit` or of any value. -/
  | setting (a : Style.Setting)
  /-- A change of the set itself. -/
  | edit (change : Edit)

/-- The change that a step makes. -/
def BuildStep.change : BuildStep → Edit
  | setting a => .assign a.slot a.value
  | edit c => c

/-- The set after a step. -/
def build (p : PropSet) : BuildStep → PropSet
  | .setting a => Style.apply p a
  | .edit c => p.edit c

/-- The set after some steps in turn. -/
def buildMany (p : PropSet) (steps : List BuildStep) : PropSet := steps.foldl build p

/-- What the last step with an effect on a slot leaves in it, or else what was there. -/
def left? (p : PropSet) (steps : List BuildStep) (s : Slot) : Option Value :=
  (lastEffect? s (steps.map BuildStep.change)).getD (p.get? s)

variable {steps others : List BuildStep}

theorem build_eq_edit (step : BuildStep) : p.build step = p.edit step.change := by
  cases step <;> rfl

theorem buildMany_eq_editMany : p.buildMany steps = p.editMany (steps.map BuildStep.change) := by
  rw [buildMany, editMany, List.foldl_map]
  exact congrArg (List.foldl · p steps) (funext fun p => funext fun step => build_eq_edit step)

theorem get?_buildMany : (p.buildMany steps).get? s = p.left? steps s := by
  rw [buildMany_eq_editMany, get?_editMany, left?]

theorem buildMany_eq_of_left? (h : ∀ s, p.left? steps s = q.left? others s) :
    p.buildMany steps = q.buildMany others := by
  refine ext_get? fun s => ?_
  rw [get?_buildMany, get?_buildMany, h]

theorem entries_buildMany : (p.buildMany steps).entries =
    Slot.all.filterMap fun s => (p.left? steps s).map fun v => (s, v) := by
  rw [entries_eq_filterMap]
  simp only [get?_buildMany]

end PropSet

namespace Sheet

/-- **The history of a property set beyond its last effects cannot be seen**, neither in the set nor
in the compilation of a sheet that has a rule with it. -/
theorem writeTo_eq_of_last_effects {p q : PropSet} {steps others : List PropSet.BuildStep}
    (h : ∀ s, p.left? steps s = q.left? others s) :
    (p.buildMany steps).entries = (q.buildMany others).entries ∧
    (p.buildMany steps).entries.Pairwise (fun a b => a.1 < b.1) ∧
    (p.buildMany steps).entries =
      Slot.all.filterMap (fun s => (p.left? steps s).map fun v => (s, v)) ∧
    ∀ {σ : Type} [Output σ] (before after : List Rule) (selector : String)
      (custom : List Declaration) (options : Options) (sink : σ),
      writeTo ⟨before ++ ⟨selector, p.buildMany steps, custom⟩ :: after⟩ options sink =
        writeTo ⟨before ++ ⟨selector, q.buildMany others, custom⟩ :: after⟩ options sink ∧
      compile ⟨before ++ ⟨selector, p.buildMany steps, custom⟩ :: after⟩ options =
        compile ⟨before ++ ⟨selector, q.buildMany others, custom⟩ :: after⟩ options := by
  refine ⟨?_, (p.buildMany steps).sorted, PropSet.entries_buildMany, ?_⟩
  · rw [PropSet.buildMany_eq_of_left? h]
  · intro _ _ before after selector custom options sink
    rw [PropSet.buildMany_eq_of_left? h]
    exact ⟨rfl, rfl⟩

/-- Assignments that are overwritten, removed or lost in a collection, in another order. -/
theorem writeTo_eq_of_last_effects_overwritten :
    ∃ p q : PropSet,
      p = PropSet.empty.buildMany [.setting (.height .auto), .edit (.remove .color),
        .edit (.merge (.ofList [(.display, .raw "none"), (.color, .color .inherit)])),
        .edit (.remove .display)] ∧
      q = PropSet.empty.buildMany [.setting (.width .auto),
        .edit (.collect [(.color, .keyword "red"), (.color, .color .inherit)]),
        .setting (.inherit .height), .setting (.display .flex), .edit (.remove .display),
        .setting (.set .height (.length .auto))] ∧
      p.entries = q.entries ∧
      compile ⟨[⟨"x", p, []⟩]⟩ {} = .ok "x{color:inherit;height:auto;}" ∧
      compile ⟨[⟨"x", q, []⟩]⟩ {} = .ok "x{color:inherit;height:auto;}" := by
  have h := @writeTo_eq_of_last_effects .empty .empty
    [.setting (.height .auto), .edit (.remove .color),
      .edit (.merge (.ofList [(.display, .raw "none"), (.color, .color .inherit)])),
      .edit (.remove .display)]
    [.setting (.width .auto),
      .edit (.collect [(.color, .keyword "red"), (.color, .color .inherit)]),
      .setting (.inherit .height), .setting (.display .flex), .edit (.remove .display),
      .setting (.set .height (.length .auto))]
    fun s => by cases s <;> rfl
  exact ⟨_, _, rfl, rfl, h.1, rfl, (h.2.2.2 [] [] "x" [] {} {}).2.symm.trans rfl⟩

end Sheet

end Cascade
