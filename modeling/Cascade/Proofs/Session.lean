import Cascade.PropSet.Lemmas
import Cascade.PropSet.Session
import Mathlib.Logic.Function.Basic

/-! # Sessions as maps

The sets of a session stand for a map that has, under every name, a value or none for each slot.
Every step does to this map what it is for, and its answer can be read off the map: this is how
`Maps.after` and `Maps.answer` say it, with no list of assignments and no order in it. One step of a
session and one of the map keep together (`maps_step`, `answer_eq`), and so do runs of any length
(`maps_run`), whichever sets the steps change and read.

Main statement: `PropSet.Session.runs_as_maps`. -/

namespace Cascade.PropSet

/-! ### Assignments of a function -/

/-- The assignments, in the order of some slots, that a function stands for. -/
def assignments (f : Slot → Option Value) (ss : List Slot) : List (Slot × Value) :=
  ss.filterMap fun s => (f s).map fun v => (s, v)

section Assignments
variable {f g : Slot → Option Value} {s : Slot} {v : Value} {ss : List Slot}

theorem assignments_cons_of_none (h : f s = none) :
    assignments f (s :: ss) = assignments f ss := by
  simp [assignments, h]

theorem assignments_cons_of_some (h : f s = some v) :
    assignments f (s :: ss) = (s, v) :: assignments f ss := by
  simp [assignments, h]

theorem not_mem_map_fst_assignments (h : s ∉ ss) : s ∉ (assignments f ss).map Prod.fst := by
  intro hmem
  obtain ⟨e, he, rfl⟩ := List.mem_map.mp hmem
  obtain ⟨t, ht, he⟩ := List.mem_filterMap.mp he
  obtain ⟨w, -, rfl⟩ := Option.map_eq_some_iff.mp he
  exact h ht

theorem map_fst_eq_of_beq {es fs : List (Slot × Value)} (h : (es == fs) = true) :
    es.map Prod.fst = fs.map Prod.fst := by
  induction es generalizing fs with
  | nil => cases fs with
    | nil => rfl
    | cons f fs => cases h
  | cons e es ih => cases fs with
    | nil => cases h
    | cons f fs =>
      rw [List.cons_beq_cons, Bool.and_eq_true] at h
      have hfst : (e.1 == f.1 && e.2 == f.2) = true := h.1
      rw [Bool.and_eq_true, beq_iff_eq] at hfst
      rw [List.map_cons, List.map_cons, hfst.1, ih h.2]

/-- The assignments of two functions are compared slot by slot. -/
theorem assignments_beq (h : ss.Nodup) :
    (assignments f ss == assignments g ss) = ss.all fun s => f s == g s := by
  induction ss with
  | nil => rfl
  | cons s ss ih =>
    obtain ⟨hs, hss⟩ := List.nodup_cons.mp h
    have hf := @not_mem_map_fst_assignments f s ss hs
    have hg := @not_mem_map_fst_assignments g s ss hs
    rw [List.all_cons, ← ih hss]
    -- an assignment to the first slot is missing on the other side if only one function has a value
    cases hfs : f s with
    | none =>
      rw [assignments_cons_of_none hfs]
      cases hgs : g s with
      | none =>
        rw [assignments_cons_of_none hgs]
        rfl
      | some w =>
        rw [assignments_cons_of_some hgs]
        apply eq_false_of_ne_true
        intro hbeq
        have hfst := map_fst_eq_of_beq hbeq
        exact hf (hfst ▸ List.mem_cons_self)
    | some v =>
      rw [assignments_cons_of_some hfs]
      cases hgs : g s with
      | none =>
        rw [assignments_cons_of_none hgs]
        apply eq_false_of_ne_true
        intro hbeq
        have hfst := map_fst_eq_of_beq hbeq
        exact hg (hfst ▸ List.mem_cons_self)
      | some w =>
        have hslot : ((s, v) == (s, w)) = (v == w) := by
          show (s == s && v == w) = (v == w)
          rw [beq_self_eq_true, Bool.true_and]
        rw [assignments_cons_of_some hgs, List.cons_beq_cons, hslot]
        rfl

end Assignments

/-! ### What the function of a set tells -/

section Sets
variable (p q : PropSet)

theorem entries_eq_assignments : p.entries = assignments p.get? Slot.all := p.entries_eq_filterMap

theorem size_eq_countP : p.size = Slot.all.countP fun s => (p.get? s).isSome := by
  rw [size, entries_eq_filterMap, List.length_filterMap_eq_countP]
  simp only [Option.isSome_map]

theorem isEmpty_eq_all : p.isEmpty = Slot.all.all fun s => (p.get? s).isNone := by
  rw [isEmpty, entries_eq_filterMap, Bool.eq_iff_iff, List.isEmpty_iff, List.filterMap_eq_nil_iff]
  simp

theorem beq_eq_all : (p == q) = Slot.all.all fun s => p.get? s == q.get? s := by
  have hnodup : Slot.all.Nodup := by decide
  show (p.entries == q.entries) = _
  rw [p.entries_eq_assignments, q.entries_eq_assignments, assignments_beq hnodup]

end Sets

namespace Session

/-! ### Maps -/

/-- For every name, the values of the slots. -/
abbrev Maps := String → Slot → Option Value

namespace Maps

/-- What a step leaves in the slots of its target. A collection makes a new set, which has the last
of the values that are given for a slot, and none for a slot that no value is given for. -/
def left (m : Maps) : Step → Slot → Option Value
  | .assign target s v => Function.update (m target) s (some v)
  | .remove target s => Function.update (m target) s none
  | .merge target source => fun s => (m source s).or (m target s)
  | .collect _ es => fun s => es.reverse.lookup s
  | .get target _ | .contains target _ | .size target | .isEmpty target | .equal target _ =>
    m target

/-- The maps after a step, with another function for its target only. -/
def after (m : Maps) (a : Step) : Maps := Function.update m a.target (m.left a)

/-- The maps after some steps in turn. -/
def run (m : Maps) (steps : List Step) : Maps := steps.foldl after m

/-- The answer to a step. To an assignment or a removal it is the value before it. -/
def answer (m : Maps) : Step → Answer
  | .assign target s _ | .get target s | .remove target s => .value (m target s)
  | .contains target s => .flag (m target s).isSome
  | .size target => .count (Slot.all.countP fun s => (m target s).isSome)
  | .isEmpty target => .flag (Slot.all.all fun s => (m target s).isNone)
  | .equal target other => .flag (Slot.all.all fun s => m target s == m other s)
  | .merge .. | .collect .. => .done

end Maps

/-- The maps that a session stands for. -/
def maps (σ : Session) : Maps := fun name s => (σ.get name).get? s

/-- The slots of its target that a step is about: the one that it names, those that have a value in
the set that is merged in, and every slot of a new set. -/
def Step.Concerns (σ : Session) (s : Slot) : Step → Prop
  | .assign _ t _ | .remove _ t => s = t
  | .merge _ source => (σ.get source).contains s = true
  | .collect .. => True
  | .get .. | .contains .. | .size .. | .isEmpty .. | .equal .. => False

/-! ### One step -/

section Step
variable (σ : Session) (a : Step)

/-- The set that a step leaves as its target. -/
def Step.result : PropSet :=
  match a.change? σ with
  | none => σ.get a.target
  | some change => (σ.get a.target).edit change

theorem get_step (name : String) :
    (σ.step a).get name = if name = a.target then a.result σ else σ.get name := by
  unfold step Step.result
  cases a.change? σ with
  | none =>
    show σ.get name = if name = a.target then σ.get a.target else σ.get name
    by_cases h : name = a.target
    · rw [if_pos h, h]
    · rw [if_neg h]
  | some change => exact Registry.get_set

theorem get?_result (s : Slot) : (a.result σ).get? s = σ.maps.left a s := by
  cases a with
  | assign target t v =>
    show ((σ.get target).insert t v).get? s = Function.update (σ.maps target) t (some v) s
    rw [get?_insert, Function.update_apply]
    rfl
  | remove target t =>
    show ((σ.get target).erase t).get? s = Function.update (σ.maps target) t none s
    rw [get?_erase, Function.update_apply]
    rfl
  | merge target source => exact get?_merge
  | collect target es => exact get?_ofList
  | get | contains | size | isEmpty | equal => rfl

/-- **A step does to the maps of a session what it is for.** -/
theorem maps_step : (σ.step a).maps = σ.maps.after a := by
  funext name s
  show ((σ.step a).get name).get? s = Function.update σ.maps a.target (σ.maps.left a) name s
  rw [get_step, Function.update_apply]
  split
  · exact get?_result σ a s
  · rfl

/-- **The answer to a step can be read off the maps before it.** -/
theorem answer_eq : a.answer σ = σ.maps.answer a := by
  cases a with
  | assign | get | remove | merge | collect => rfl
  | contains target s => exact congrArg Answer.flag contains_eq_isSome_get?
  | size target => exact congrArg Answer.count (size_eq_countP (σ.get target))
  | isEmpty target => exact congrArg Answer.flag (isEmpty_eq_all (σ.get target))
  | equal target other => exact congrArg Answer.flag (beq_eq_all (σ.get target) (σ.get other))

variable {σ a}

/-- Only the target of a step changes, whatever other set the step reads. -/
theorem get_step_of_ne {name : String} (h : name ≠ a.target) :
    (σ.step a).get name = σ.get name := by
  rw [get_step, if_neg h]

theorem get?_step_of_not_concerns {s : Slot} (h : ¬ a.Concerns σ s) :
    ((σ.step a).get a.target).get? s = (σ.get a.target).get? s := by
  rw [get_step, if_pos rfl, get?_result]
  cases a with
  | assign target t v => exact Function.update_of_ne h ..
  | remove target t => exact Function.update_of_ne h ..
  | merge target source =>
    have hnone : σ.maps source s = none := by
      have hcontains : ¬ (σ.get source).contains s = true := h
      rw [contains_eq_isSome_get?] at hcontains
      exact Option.not_isSome_iff_eq_none.mp hcontains
    show (σ.maps source s).or (σ.maps target s) = σ.maps target s
    rw [hnone, Option.none_or]
  | collect target es => exact absurd trivial h
  | get | contains | size | isEmpty | equal => rfl

end Step

/-! ### Runs -/

/-- **A run of steps does to the maps of a session what each step is for**, one after the other. -/
theorem maps_run (σ : Session) (steps : List Step) : (σ.run steps).maps = σ.maps.run steps := by
  induction steps generalizing σ with
  | nil => rfl
  | cons a steps ih =>
    calc ((σ.step a).run steps).maps = (σ.step a).maps.run steps := ih (σ.step a)
      _ = (σ.maps.after a).run steps := by rw [maps_step]

/-- **After a run of any length the sets of a session are the maps that they stand for.** Each is
kept in the order of the slots with no slot twice, and holds for every slot what the same run makes
of the maps. Any next step has the answer that the maps have, leaves all sets but its target as they
are, and its target but for the slots that it is about. -/
theorem runs_as_maps (σ : Session) (steps : List Step) :
    (∀ name, ((σ.run steps).get name).entries.Pairwise (fun e f => e.1 < f.1) ∧
      ((σ.run steps).get name).entries = assignments (σ.maps.run steps name) Slot.all) ∧
    (∀ name s, ((σ.run steps).get name).get? s = σ.maps.run steps name s) ∧
    ∀ a : Step, a.answer (σ.run steps) = (σ.maps.run steps).answer a ∧
      (∀ name s, (((σ.run steps).step a).get name).get? s = (σ.maps.run steps).after a name s) ∧
      (∀ name, name ≠ a.target → ((σ.run steps).step a).get name = (σ.run steps).get name) ∧
      ∀ s, ¬ a.Concerns (σ.run steps) s →
        (((σ.run steps).step a).get a.target).get? s = ((σ.run steps).get a.target).get? s := by
  have hmaps := maps_run σ steps
  refine ⟨fun name => ⟨((σ.run steps).get name).sorted, ?_⟩, fun name s => ?_,
    fun a => ⟨?_, ?_, ?_⟩⟩
  · rw [← hmaps]
    exact entries_eq_assignments _
  · rw [← hmaps]
    rfl
  · rw [answer_eq, hmaps]
  · intro name s
    rw [← hmaps, ← maps_step]
    rfl
  · exact ⟨fun name h => get_step_of_ne h, fun s h => get?_step_of_not_concerns h⟩

/-- A set is merged into itself after another one has been merged into it, which is changed
later. -/
theorem runs_as_maps_self_merge :
    ∃ (σ : Session) (a : Step),
      σ = run .initial [.assign "a" .color (.keyword "red"),
        .collect "b" [(.width, .raw "1px"), (.color, .keyword "blue"), (.width, .raw "2px")],
        .merge "a" "b", .merge "a" "a", .remove "b" .color] ∧
      a = .remove "a" .width ∧
      (σ.get "a").entries = [(.color, .keyword "blue"), (.width, .raw "2px")] ∧
      a.answer σ = .value (some (.raw "2px")) ∧
      ((σ.step a).get "a").get? .width = none ∧
      "b" ≠ a.target ∧ (σ.step a).get "b" = σ.get "b" ∧
      ¬ a.Concerns σ .color ∧ ((σ.step a).get "a").get? .color = some (.keyword "blue") := by
  let steps : List Step := [.assign "a" .color (.keyword "red"),
    .collect "b" [(.width, .raw "1px"), (.color, .keyword "blue"), (.width, .raw "2px")],
    .merge "a" "b", .merge "a" "a", .remove "b" .color]
  let a : Step := .remove "a" .width
  obtain ⟨hentries, hget, hstep⟩ := runs_as_maps .initial steps
  obtain ⟨hanswer, hafter, hother, hslot⟩ := hstep a
  have hne : "b" ≠ a.target := by decide
  have hcolor : ¬ a.Concerns (run .initial steps) .color := by
    show ¬ Slot.color = Slot.width
    decide
  exact ⟨_, a, rfl, rfl, (hentries "a").2, hanswer, hafter "a" .width, hne, hother "b" hne, hcolor,
    (hslot .color hcolor).trans (hget "a" .color)⟩

end Session

end Cascade.PropSet
