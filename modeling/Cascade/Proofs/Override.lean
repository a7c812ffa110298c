import Cascade.Proofs.Outcome
import Cascade.PropSet.Lemmas

/-! # Overrides

A style sheet may declare a property twice in a rule, and then the last declaration counts. Three
things declare properties here: the border of a rule, which stands for up to three of them, the
other slots, and the rule's own declarations.

Main statements:
- `Border.named_declarations`, `Slot.named_resolve`: what one assignment declares under a name.
- `PropSet.flatMap_slotText?`: what the assignments of a set declare under a name, in their order.
- `Rule.last_declaration_counts`: which of the declarations of a rule counts under a name. -/

namespace Cascade

/-! ### The declarations under a name -/

namespace Declaration

/-- The declarations with a given name, in their order. -/
def named (name : String) (ds : List Declaration) : List Declaration :=
  ds.filter (·.name = name)

/-- The value of the last declaration with a given name. -/
def last? (name : String) (ds : List Declaration) : Option String :=
  (named name ds).getLast?.map Declaration.value

/-- The declaration of a text, if there is one, under a name. -/
def ofText? (name : String) (text? : Option String) : List Declaration :=
  (text?.map (Declaration.mk name)).toList

variable {name : String} {ds es : List Declaration}

theorem named_append : named name (ds ++ es) = named name ds ++ named name es :=
  List.filter_append ds es

theorem last?_append : last? name (ds ++ es) = (last? name es).or (last? name ds) := by
  unfold last?
  rw [named_append, List.getLast?_append]
  cases (named name es).getLast? <;> rfl

theorem count_name : (ds.map Declaration.name).count name = (named name ds).length := by
  rw [named, List.count, List.countP_map, List.countP_eq_length_filter]
  rfl

theorem named_ofText? (n : String) (text? : Option String) :
    named name (ofText? n text?) = if name = n then ofText? name text? else [] := by
  cases text? <;> by_cases h : name = n <;> simp [named, ofText?, h, Ne.symm]

end Declaration

open Declaration (named ofText?)

/-! ### The texts of a rule -/

/-- The text that a border gives to one of its parts, by the name of the part. -/
def Border.part? (b : Border) (name : String) : Option String :=
  if name = "border-width" then b.width?.map Length.css
  else if name = "border-style" then b.style?.map Keyword.text
  else if name = "border-color" then b.color?.bind Color.css?
  else none

/-- The text that the assignment of a value to a slot gives to a property. -/
def Slot.text? (s : Slot) (v : Value) (name : String) : Option String :=
  if s.isComposite then
    match v with
    | .border b => b.part? name
    | _ => none
  else if s.name = name then v.css? else none

namespace Border

variable {b : Border} {ds : List Declaration}

theorem widthDeclarations_eq (h : b.widthDeclarations = .ok ds) :
    ds = ofText? "border-width" (b.width?.map Length.css) := by
  unfold widthDeclarations at h
  cases hw : b.width? with
  | none =>
    rw [hw] at h
    exact (Except.ok.inj h).symm
  | some l =>
    rw [hw] at h
    obtain ⟨-, -, h⟩ := Outcome.bind_eq_ok_iff.mp h
    exact (Except.ok.inj h).symm

theorem styleDeclarations_eq (b : Border) :
    b.styleDeclarations = ofText? "border-style" (b.style?.map Keyword.text) := by
  unfold styleDeclarations
  cases b.style? <;> rfl

theorem colorDeclarations_eq (b : Border) :
    b.colorDeclarations = ofText? "border-color" (b.color?.bind Color.css?) := by
  unfold colorDeclarations
  cases b.color?.bind Color.css? <;> rfl

/-- **A border that is accepted declares its parts**, each under its own name. -/
theorem named_declarations (h : b.declarations = .ok ds) (name : String) :
    named name ds = ofText? name (b.part? name) := by
  obtain ⟨width, hwidth, h⟩ := Outcome.bind_eq_ok_iff.mp h
  rw [← Except.ok.inj h, widthDeclarations_eq hwidth, styleDeclarations_eq, colorDeclarations_eq]
  simp only [Declaration.named_append, Declaration.named_ofText?, part?]
  by_cases hw : name = "border-width"
  · subst hw
    simp
  by_cases hs : name = "border-style"
  · subst hs
    simp
  by_cases hc : name = "border-color"
  · subst hc
    simp
  · simp [hw, hs, hc, ofText?]

end Border

namespace Slot

variable {s : Slot} {v : Value} {ds : List Declaration}

theorem plain_eq (s : Slot) (v : Value) : s.plain v = ofText? s.name v.css? := by
  unfold plain
  cases v.css? <;> rfl

theorem isComposite_eq_of_accepts (h : s.accepts v = true) :
    s.isComposite = decide (v.kind = .border) := by
  unfold accepts at h
  unfold isComposite
  revert h
  cases s.kind <;> cases v.kind <;> decide

theorem resolve_eq_plain (h : s.resolve v = .ok ds) (hs : s.isComposite = false) :
    ds = s.plain v := by
  unfold resolve at h
  split at h
  · next ha =>
    have hkind := isComposite_eq_of_accepts ha
    cases v with
    | border b =>
      rw [hs] at hkind
      exact absurd hkind (by simp [Value.kind])
    | length l =>
      obtain ⟨-, -, h⟩ := Outcome.bind_eq_ok_iff.mp h
      exact (Except.ok.inj h).symm
    | keyword _ | raw _ | color _ => exact (Except.ok.inj h).symm
  · cases h

theorem resolve_eq_border (h : s.resolve v = .ok ds) (hs : s.isComposite = true) :
    ∃ b, v = .border b ∧ b.declarations = .ok ds := by
  unfold resolve at h
  split at h
  · next ha =>
    have hkind := isComposite_eq_of_accepts ha
    rw [hs] at hkind
    cases v with
    | border b => exact ⟨b, rfl, h⟩
    | length _ | keyword _ | raw _ | color _ => exact absurd hkind (by simp [Value.kind])
  · cases h

/-- **An assignment that is accepted declares its text for a property**, or else nothing under that
name. -/
theorem named_resolve (h : s.resolve v = .ok ds) (name : String) :
    named name ds = ofText? name (s.text? v name) := by
  unfold text?
  split
  · next hs =>
    obtain ⟨b, rfl, hb⟩ := resolve_eq_border h hs
    exact Border.named_declarations hb name
  · next hs =>
    rw [resolve_eq_plain h (eq_false_of_ne_true hs), plain_eq, Declaration.named_ofText?]
    by_cases hn : s.name = name
    · simp [hn]
    · simp [hn, Ne.symm hn, ofText?]

end Slot

/-! ### The texts of a property set -/

namespace PropSet

/-- The text that the border of a set gives to a property. -/
def partText? (p : PropSet) (name : String) : Option String :=
  match p.get? .border with
  | some (.border b) => b.part? name
  | _ => none

/-- The text that a set gives to the property of a slot of its own. -/
def ownText? (p : PropSet) (name : String) : Option String :=
  (Slot.ofName? name).bind fun s => if s.isComposite then none else (p.get? s).bind Value.css?

/-- The text that the assignment to a slot gives to a property. -/
def slotText? (p : PropSet) (name : String) (s : Slot) : Option String :=
  (p.get? s).bind fun v => s.text? v name

variable (p : PropSet) {name : String} {s : Slot}

theorem slotText?_border : p.slotText? name .border = p.partText? name := by
  unfold slotText? partText? Slot.text?
  cases p.get? .border with
  | none => rfl
  | some v => cases v <;> rfl

theorem slotText?_of_ne_border (hs : s ≠ .border) :
    p.slotText? name s = if s.name = name then p.ownText? name else none := by
  have hsimple : s.isComposite = false := by
    revert hs
    cases s <;> decide
  unfold slotText? Slot.text?
  simp only [hsimple, Bool.false_eq_true, if_false]
  split
  · next hn =>
    rw [ownText?, Slot.ofName?_eq_some_iff.mpr hn, Option.bind_some, hsimple]
    rfl
  · cases p.get? s <;> rfl

theorem mem_of_partText?_eq_some {part : String} (h : p.partText? name = some part) :
    name ∈ ["border-width", "border-style", "border-color"] := by
  unfold partText? at h
  split at h
  · next b _ =>
    unfold Border.part? at h
    by_contra hname
    simp only [List.mem_cons, List.not_mem_nil, or_false, not_or] at hname
    rw [if_neg hname.1, if_neg hname.2.1, if_neg hname.2.2] at h
    cases h
  · cases h

theorem ownText?_border : p.ownText? Slot.border.name = none := by
  rw [ownText?, Slot.ofName?_name]
  rfl

theorem partText?_of_lt_border (hs : s < .border) : p.partText? s.name = none := by
  have hname : ∀ b : Border, b.part? s.name = none := by
    revert hs
    cases s <;> first | exact fun _ _ => rfl | exact fun h => absurd h (by decide)
  unfold partText?
  split
  · next b _ => exact hname b
  · rfl

/-! ### The declarations of a property set -/

theorem flatMap_entries (name : String) :
    p.entries.flatMap (fun e => ofText? name (e.1.text? e.2 name)) =
      Slot.all.flatMap fun s => ofText? name (p.slotText? name s) := by
  rw [entries_eq_filterMap, List.filterMap_eq_flatMap_toList, List.flatMap_assoc]
  refine congrArg (List.flatMap · Slot.all) (funext fun s => ?_)
  unfold slotText?
  cases p.get? s <;> simp [ofText?]

theorem flatMap_eq_flatMap_filter {α β : Type} {f : α → List β} {q : α → Bool}
    (h : ∀ a, q a = false → f a = []) (l : List α) : l.flatMap f = (l.filter q).flatMap f := by
  induction l with
  | nil => rfl
  | cons a l ih =>
    rw [List.flatMap_cons, ih, List.filter_cons]
    split
    · rfl
    · next ha => rw [h a (eq_false_of_ne_true ha), List.nil_append]

/-- Only the border and the slot with the name itself have a say in a property. -/
theorem filter_all_of_ofName? {name : String} {s : Slot} (h : Slot.ofName? name = some s) :
    Slot.all.filter (fun t => t = .border ∨ t.name = name) =
      if s = .border then [.border] else if s < .border then [s, .border] else [.border, s] := by
  have hname (t : Slot) : t.name = name ↔ t = s := by
    rw [← Slot.ofName?_eq_some_iff, h, Option.some.injEq, eq_comm]
  simp only [hname]
  cases s <;> rfl

theorem filter_all_of_ofName?_eq_none {name : String} (h : Slot.ofName? name = none) :
    Slot.all.filter (fun t => t = .border ∨ t.name = name) = [.border] := by
  have hname (t : Slot) : t.name ≠ name := by
    rw [Ne, ← Slot.ofName?_eq_some_iff, h]
    simp
  simp only [hname, or_false]
  rfl

/-- **A set declares for a property the text of the part of its border first**, and then the text of
the slot of the property. -/
theorem flatMap_slotText? (name : String) :
    Slot.all.flatMap (fun s => ofText? name (p.slotText? name s)) =
      ofText? name (p.partText? name) ++ ofText? name (p.ownText? name) := by
  have hother (s : Slot) (hs : decide (s = .border ∨ s.name = name) = false) :
      ofText? name (p.slotText? name s) = [] := by
    rw [decide_eq_false_iff_not, not_or] at hs
    rw [slotText?_of_ne_border p hs.1, if_neg hs.2]
    rfl
  rw [flatMap_eq_flatMap_filter hother]
  cases hn : Slot.ofName? name with
  | none =>
    have hown : p.ownText? name = none := by rw [ownText?, hn, Option.bind_none]
    rw [filter_all_of_ofName?_eq_none hn, List.flatMap_singleton, slotText?_border, hown]
    exact (List.append_nil _).symm
  | some s =>
    obtain rfl := Slot.ofName?_eq_some_iff.mp hn
    rw [filter_all_of_ofName? hn]
    by_cases hs : s = .border
    · subst hs
      rw [if_pos rfl, List.flatMap_singleton, slotText?_border, ownText?_border]
      exact (List.append_nil _).symm
    have hown : p.slotText? s.name s = p.ownText? s.name := by
      rw [slotText?_of_ne_border p hs, if_pos rfl]
    rw [if_neg hs]
    -- the slots before the border are none of its parts
    split
    · next hlt =>
      simp [slotText?_border, hown, partText?_of_lt_border p hlt, ofText?]
    · simp [slotText?_border, hown]

end PropSet

namespace Rule

variable {r : Rule} {options : Options} {index : Nat} {b : Block}

theorem named_flatten {es : List (Slot × Value)} {typed : List (List Declaration)}
    (h : es.mapM (fun e => e.1.resolve e.2) = .ok typed) (name : String) :
    named name typed.flatten = es.flatMap fun e => ofText? name (e.1.text? e.2 name) := by
  rw [Outcome.mapM_eq_ok_iff] at h
  induction h with
  | nil => rfl
  | cons hds _ ih =>
    rw [List.flatten_cons, Declaration.named_append, ih, Slot.named_resolve hds, List.flatMap_cons]

theorem named_typed {typed : List Declaration} (h : r.typed.outcome = .ok typed) (name : String) :
    named name typed =
      ofText? name (r.props.partText? name) ++ ofText? name (r.props.ownText? name) := by
  obtain ⟨dss, hdss, rfl⟩ := exists_flatten_of_typed h
  rw [named_flatten hdss, PropSet.flatMap_entries, PropSet.flatMap_slotText?]

theorem exists_typed_of_outcome_block (h : (r.block options index).outcome = .ok b) :
    ∃ typed, r.typed.outcome = .ok typed ∧ b.declarations = typed ++ r.custom := by
  obtain ⟨typed, htyped, rfl⟩ := exists_typed_of_resolve (resolve_of_outcome_block h)
  exact ⟨typed, htyped, rfl⟩

theorem last?_typed {typed : List Declaration} (h : r.typed.outcome = .ok typed) (name : String) :
    Declaration.last? name typed = (r.props.ownText? name).or (r.props.partText? name) := by
  unfold Declaration.last?
  rw [named_typed h, List.getLast?_append]
  cases r.props.ownText? name <;> cases r.props.partText? name <;> rfl

/-- **What counts of a rule under a name**: the last declaration of its own, else the text of the
slot with the name, else that of the part of the border with the name. The slots declare a name at
most twice, and twice only if it is the name of a part of the border, which then comes first. -/
theorem last_declaration_counts (h : (r.block options index).outcome = .ok b) (name : String) :
    Declaration.last? name b.declarations = (Declaration.last? name r.custom).or
      ((r.props.ownText? name).or (r.props.partText? name)) ∧
    ∃ typed, r.typed.outcome = .ok typed ∧ b.declarations = typed ++ r.custom ∧
      (typed.map Declaration.name).count name ≤ 2 ∧
      ((typed.map Declaration.name).count name = 2 →
        name ∈ ["border-width", "border-style", "border-color"] ∧
        ∃ part own, r.props.partText? name = some part ∧ r.props.ownText? name = some own ∧
          named name typed = [⟨name, part⟩, ⟨name, own⟩]) := by
  obtain ⟨typed, htyped, hb⟩ := exists_typed_of_outcome_block h
  have hnamed := named_typed htyped name
  refine ⟨?_, typed, htyped, hb, ?_⟩
  · rw [hb, Declaration.last?_append, last?_typed htyped]
  rw [Declaration.count_name, hnamed]
  cases hpart : r.props.partText? name with
  | none => cases r.props.ownText? name <;> simp [ofText?]
  | some part =>
    cases r.props.ownText? name with
    | none => simp [ofText?]
    | some own =>
      refine ⟨Nat.le_refl _, fun _ => ?_⟩
      exact ⟨PropSet.mem_of_partText?_eq_some _ hpart, part, own, rfl, rfl, rfl⟩

/-- The style of the border shows through because the text of its slot is blank, and no color counts
because the one of the border has no digits. -/
theorem last_declaration_counts_omitted :
    ∃ (r : Rule) (b : Block),
      r.props = .ofList [(.borderWidth, .keyword "thin"), (.borderStyle, .keyword " "),
        (.border, .border ⟨some .inherit, some .solid, some (.hex " #")⟩)] ∧
      r.custom = [⟨"border-width", "1px"⟩] ∧ (r.block {} 0).outcome = .ok b ∧
      b.declarations = [⟨"border-width", "inherit"⟩, ⟨"border-style", "solid"⟩,
        ⟨"border-width", "thin"⟩, ⟨"border-width", "1px"⟩] ∧
      Declaration.last? "border-width" b.declarations = some "1px" ∧
      Declaration.last? "border-style" b.declarations = some "solid" ∧
      Declaration.last? "border-color" b.declarations = none := by
  have h : (Rule.block
      { selector := "a"
        props := .ofList [(.borderWidth, .keyword "thin"), (.borderStyle, .keyword " "),
          (.border, .border ⟨some .inherit, some .solid, some (.hex " #")⟩)]
        custom := [⟨"border-width", "1px"⟩] } {} 0).outcome =
      .ok ⟨"a", [⟨"border-width", "inherit"⟩, ⟨"border-style", "solid"⟩,
        ⟨"border-width", "thin"⟩, ⟨"border-width", "1px"⟩]⟩ := rfl
  exact ⟨_, _, rfl, rfl, h, rfl, (last_declaration_counts h "border-width").1,
    (last_declaration_counts h "border-style").1, (last_declaration_counts h "border-color").1⟩

end Rule

end Cascade
