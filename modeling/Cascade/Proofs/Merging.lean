import Cascade.PropSet.Lemmas

/-! # Merging

To merge a set into another one is to override: a slot has the value that it has in the set merged
in, or else the one that it had. So merging is associative with the empty set as its unit, and a set
merged into itself changes nothing. The order of two sets matters only for a slot to which they give
different values (`Agree`). A set collected from assignments is merged from the sets collected from
their parts.

The equations are between the functions from slots to values that the sets stand for (`ext_get?`).
They hold for a value with a NaN as well, although `==` tells it apart from itself.

Main statement: `PropSet.merge_overrides`. -/

namespace Cascade.PropSet

/-! ### The unit and the order of merging -/

theorem merge_empty (p : PropSet) : p.merge empty = p := by
  apply ext_get?
  intro s
  rw [get?_merge, get?_empty, Option.none_or]

theorem empty_merge (p : PropSet) : empty.merge p = p := by
  apply ext_get?
  intro s
  rw [get?_merge, get?_empty, Option.or_none]

theorem merge_self (p : PropSet) : p.merge p = p := by
  apply ext_get?
  intro s
  rw [get?_merge, Option.or_self]

theorem merge_assoc (p q r : PropSet) : (p.merge q).merge r = p.merge (q.merge r) := by
  apply ext_get?
  intro s
  calc ((p.merge q).merge r).get? s = (r.get? s).or ((q.get? s).or (p.get? s)) := by
        rw [get?_merge, get?_merge]
    _ = ((r.get? s).or (q.get? s)).or (p.get? s) := (Option.or_assoc ..).symm
    _ = (p.merge (q.merge r)).get? s := by rw [get?_merge, get?_merge]

/-! ### Sets that agree -/

/-- No slot has two different values in two sets. -/
def Agree (p q : PropSet) : Prop := ∀ s v w, p.get? s = some v → q.get? s = some w → v = w

variable {p q : PropSet}

theorem Agree.or_get? (h : p.Agree q) (s : Slot) :
    (q.get? s).or (p.get? s) = (p.get? s).or (q.get? s) := by
  cases hp : p.get? s with
  | none => rw [Option.or_none, Option.none_or]
  | some v =>
    cases hq : q.get? s with
    | none => rfl
    | some w =>
      show some w = some v
      rw [h s v w hp hq]

/-- **It does not matter which of two sets is merged into the other** exactly if they agree. -/
theorem merge_comm_iff : p.merge q = q.merge p ↔ p.Agree q := by
  constructor
  · intro h s v w hv hw
    have hs : (p.merge q).get? s = (q.merge p).get? s := by rw [h]
    rw [get?_merge, get?_merge, hv, hw] at hs
    exact (Option.some.inj hs).symm
  · intro h
    apply ext_get?
    intro s
    rw [get?_merge, get?_merge]
    exact h.or_get? s

/-! ### Collecting -/

theorem ofList_append (es fs : List (Slot × Value)) :
    ofList (es ++ fs) = (ofList es).merge (ofList fs) := by
  apply ext_get?
  intro s
  rw [get?_merge, get?_ofList, get?_ofList, get?_ofList, List.reverse_append, List.lookup_append]

/-- **Merging overrides.** It is associative, the empty set is its unit on both sides, and a set
merged into itself changes nothing. Two sets can be merged in either order exactly if they have no
slot to which they give different values. Assignments are collected by collecting a first part of
them, then the rest, and merging the latter set into the former. -/
theorem merge_overrides :
    (∀ p q : PropSet, ∀ s, (p.merge q).get? s = (q.get? s).or (p.get? s)) ∧
    (∀ p q r : PropSet, (p.merge q).merge r = p.merge (q.merge r)) ∧
    (∀ p : PropSet, p.merge empty = p ∧ empty.merge p = p) ∧
    (∀ p : PropSet, p.merge p = p) ∧
    (∀ p q : PropSet, p.merge q = q.merge p ↔ p.Agree q) ∧
    ∀ es fs : List (Slot × Value), ofList (es ++ fs) = (ofList es).merge (ofList fs) :=
  ⟨fun _ _ _ => get?_merge, merge_assoc, fun p => ⟨merge_empty p, empty_merge p⟩, merge_self,
    fun _ _ => merge_comm_iff, ofList_append⟩

end Cascade.PropSet
