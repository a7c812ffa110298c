import Cascade.Proofs.Fault
import Cascade.Proofs.Omission

/-! # Border expansion

A border is a shorthand for its width, its line style and its color, each of which has a slot of its
own. There are three ways to write it down: expanded by the border slot, assigned part by part to
the slots of its parts, and as the text of the shorthand. They agree.

Main statements:
- `Border.resolves_as_longhands`: the border slot resolves to what the slots of the parts resolve
  to, and fails where they fail.
- `Border.shorthand_joins_expansion`: the text of the shorthand is made of the values that the expansion
  declares. -/

namespace Cascade

/-! ### Resolving one assignment after the other -/

namespace Outcome

variable {ε α β : Type} {f : α → Except ε (List β)}

theorem flatten_mapM_append {xs ys : List α} : List.flatten <$> (xs ++ ys).mapM f = do
    let x ← List.flatten <$> xs.mapM f
    let y ← List.flatten <$> ys.mapM f
    return x ++ y := by
  rw [List.mapM_append]
  cases xs.mapM f with
  | error e => rfl
  | ok x =>
    cases ys.mapM f with
    | error e => rfl
    | ok y => exact congrArg Except.ok List.flatten_append

theorem flatten_mapM_toList {x? : Option α} :
    List.flatten <$> x?.toList.mapM f = x?.elim (.ok []) f := by
  cases x? with
  | none => rfl
  | some x =>
    rw [Option.toList_some, flatten_mapM_cons, Option.elim_some]
    cases f x with
    | error e => rfl
    | ok y => exact congrArg Except.ok (List.append_nil y)

end Outcome

/-! ### The parts of a border on slots of their own -/

/-- The assignment of a value to a slot, if there is one. -/
def Slot.assignment? (s : Slot) (v? : Option Value) : Option (Slot × Value) := v?.map (s, ·)

theorem Slot.resolve_assignment? (s : Slot) (v? : Option Value) :
    (s.assignment? v?).elim (.ok []) (fun a => a.1.resolve a.2) = v?.elim (.ok []) s.resolve := by
  cases v? <;> rfl

namespace Border

/-- The parts of a border that are set, as assignments of the slots that they belong to. -/
def longhands (b : Border) : List (Slot × Value) :=
  (Slot.borderWidth.assignment? (b.width?.map .length)).toList ++
    (Slot.borderStyle.assignment? (b.style?.map .ofKeyword)).toList ++
    (Slot.borderColor.assignment? (b.color?.map .color)).toList

variable {b : Border} {ds : List Declaration} {e : Error}

theorem resolve_width (b : Border) :
    (b.width?.map .length).elim (.ok []) Slot.borderWidth.resolve = b.widthDeclarations := by
  unfold widthDeclarations
  cases b.width? <;> rfl

theorem resolve_style (b : Border) :
    (b.style?.map .ofKeyword).elim (.ok []) Slot.borderStyle.resolve = .ok b.styleDeclarations := by
  unfold styleDeclarations
  cases b.style? with
  | none => rfl
  | some style => cases style <;> rfl

theorem resolve_color (b : Border) :
    (b.color?.map .color).elim (.ok []) Slot.borderColor.resolve = .ok b.colorDeclarations := by
  unfold colorDeclarations
  cases b.color? <;> rfl

theorem declarations_eq_longhands (b : Border) :
    b.declarations = List.flatten <$> b.longhands.mapM fun a => a.1.resolve a.2 := by
  simp only [longhands, Outcome.flatten_mapM_append, Outcome.flatten_mapM_toList,
    Slot.resolve_assignment?, resolve_width, resolve_style, resolve_color]
  unfold declarations
  cases b.widthDeclarations <;> rfl

/-! ### Refused widths -/

theorem resolve_width_eq_error_iff {width : Length} :
    Slot.borderWidth.resolve (.length width) = .error e ↔
      width.requireFinite .borderWidth = .error e :=
  Outcome.bind_pure_eq_error_iff

theorem declarations_eq_error_iff_width : b.declarations = .error e ↔
    ∃ width, b.width? = some width ∧ Slot.borderWidth.resolve (.length width) = .error e := by
  simp only [declarations_eq_error_iff, resolve_width_eq_error_iff]

/-- **The border slot resolves to what the slots of the parts resolve to**, one after the other in
the order width, line style, color. It fails exactly where the width fails on its own slot, with the
same error. -/
theorem resolves_as_longhands (b : Border) :
    Slot.border.resolve (.border b) =
      List.flatten <$> b.longhands.mapM (fun a => a.1.resolve a.2) ∧
    (∀ e, Slot.border.resolve (.border b) = .error e ↔
      ∃ width, b.width? = some width ∧ Slot.borderWidth.resolve (.length width) = .error e) ∧
    ∀ width e, Slot.borderWidth.resolve (.length width) = .error e ↔
      ∃ defect, width.nonFinite? = some defect ∧ e = .notFinite .borderWidth defect := by
  refine ⟨declarations_eq_longhands b, fun e => declarations_eq_error_iff_width, fun width e => ?_⟩
  rw [resolve_width_eq_error_iff, Length.requireFinite_eq_error_iff]
  simp only [Length.nonFinite?_eq_some_iff, and_assoc]

/-! ### The shorthand -/

theorem css?_of_partTexts (h : b.partTexts ≠ []) :
    b.css? = some (" ".intercalate b.partTexts) := by
  obtain ⟨text, texts, hparts⟩ := List.exists_cons_of_ne_nil h
  rw [css?, hparts]

/-- **The text of the shorthand is made of the values that the expansion declares**, with single
spaces between them; there is none exactly if nothing is declared. -/
theorem shorthand_joins_expansion (h : Slot.border.resolve (.border b) = .ok ds) :
    (b.css? = none ↔ ds = []) ∧
    (ds ≠ [] → b.css? = some (" ".intercalate (ds.map Declaration.value))) := by
  have hvalues : ds.map Declaration.value = b.partTexts := map_value_declarations h
  constructor
  · rw [css?_eq_none_iff_partTexts, ← hvalues, List.map_eq_nil_iff]
  · intro hne
    rw [hvalues]
    apply css?_of_partTexts
    rwa [← hvalues, Ne, List.map_eq_nil_iff]

/-- All three parts, and a border that declares nothing, as its color is blank. -/
theorem shorthand_joins_expansion_blank : ∃ (b b' : Border) (ds : List Declaration),
    b = ⟨some .inherit, some .solid, some (.hex " ##fff ")⟩ ∧
    b' = ⟨none, none, some (.hex " ##")⟩ ∧
    Slot.border.resolve (.border b) = .ok ds ∧
    ds = [⟨"border-width", "inherit"⟩, ⟨"border-style", "solid"⟩, ⟨"border-color", "#fff"⟩] ∧
    b.css? = some "inherit solid #fff" ∧
    Slot.border.resolve (.border b') = .ok [] ∧ b'.css? = none := by
  let b : Border := ⟨some .inherit, some .solid, some (.hex " ##fff ")⟩
  let b' : Border := ⟨none, none, some (.hex " ##")⟩
  have hb : Slot.border.resolve (.border b) = .ok [⟨"border-width", "inherit"⟩,
    ⟨"border-style", "solid"⟩, ⟨"border-color", "#fff"⟩] := by decide +kernel
  have hb' : Slot.border.resolve (.border b') = .ok [] := by decide +kernel
  exact ⟨b, b', _, rfl, rfl, hb, rfl, (shorthand_joins_expansion hb).2 (List.cons_ne_nil _ _), hb',
    (shorthand_joins_expansion hb').1.mpr rfl⟩

end Border

end Cascade
