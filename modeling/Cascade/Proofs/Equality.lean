import Cascade.Proofs.Outcome

/-! # Equality

Numbers are compared as IEEE 754 does it, where the two zeros are equal and NaN differs even from
itself. All else is compared part by part, down to the numbers in it, so that equal sheets need not
be the same: they are *alike*. What is alike cannot be told apart by what comes of it: values that
are alike have the same text and the same declarations (`Value.Alike.css?_eq`,
`Value.Alike.resolve_eq`), and sheets that are alike have the same compilation
(`Sheet.Alike.writeTo_eq`). -/

namespace Cascade

/-! ### Numbers -/

namespace Binary64

variable {x y : Binary64}

/-- **Equal numbers are the same or the two zeros**, and none of them is NaN. -/
theorem beq_iff : (x == y) = true ↔
    x.isNaN = false ∧ y.isNaN = false ∧ (x.isZero = true ∧ y.isZero = true ∨ x = y) := by
  change numEq x y = true ↔ _
  simp [numEq, and_assoc]

theorem isZero_congr (h : (x == y) = true) : x.isZero = y.isZero := by
  obtain ⟨-, -, ⟨hx, hy⟩ | rfl⟩ := beq_iff.mp h
  · rw [hx, hy]
  · rfl

theorem nonFinite?_of_isZero (h : x.isZero = true) : x.nonFinite? = none := by
  have hx : x.ordinal.val = 0 := of_decide_eq_true h
  rw [nonFinite?_eq_none_iff, isFinite, hx]
  rfl

theorem nonFinite?_congr (h : (x == y) = true) : x.nonFinite? = y.nonFinite? := by
  obtain ⟨-, -, ⟨hx, hy⟩ | rfl⟩ := beq_iff.mp h
  · rw [nonFinite?_of_isZero hx, nonFinite?_of_isZero hy]
  · rfl

theorem text_of_isZero (h : x.isZero = true) : x.text = "0" := by
  simp only [text, nonFinite?_of_isZero h, h, if_true]

theorem text_congr (h : (x == y) = true) : x.text = y.text := by
  obtain ⟨-, -, ⟨hx, hy⟩ | rfl⟩ := beq_iff.mp h
  · rw [text_of_isZero hx, text_of_isZero hy]
  · rfl

end Binary64

/-! ### What is alike -/

/-- Lengths with equal numbers and the same unit. -/
structure Length.Alike (l m : Length) : Prop where
  number : (l.number == m.number) = true
  unit : l.unit = m.unit

/-- Borders with the same parts, but for the number of the width, which is equal. -/
structure Border.Alike (a b : Border) : Prop where
  width : Option.Rel Length.Alike a.width? b.width?
  style : a.style? = b.style?
  color : a.color? = b.color?

/-- Values of one kind that are the same, but for the numbers in them, which are equal. -/
inductive Value.Alike : Value → Value → Prop where
  | keyword (text : String) : Alike (.keyword text) (.keyword text)
  | raw (text : String) : Alike (.raw text) (.raw text)
  | length {l m : Length} (h : l.Alike m) : Alike (.length l) (.length m)
  | color (c : Color) : Alike (.color c) (.color c)
  | border {a b : Border} (h : a.Alike b) : Alike (.border a) (.border b)

/-- Rules with the same selector, the same slots in order with values that are alike, and the same
declarations of their own. -/
structure Rule.Alike (r r' : Rule) : Prop where
  selector : r.selector = r'.selector
  entries : List.Forall₂ (fun e f => e.1 = f.1 ∧ e.2.Alike f.2) r.props.entries r'.props.entries
  custom : r.custom = r'.custom

/-- Sheets with rules that are alike, in their order. -/
def Sheet.Alike (a b : Sheet) : Prop := List.Forall₂ Rule.Alike a.rules b.rules

/-! ### Equal is alike -/

theorem Length.beq_iff {l m : Length} : (l == m) = true ↔ l.Alike m := by
  change instBEqLength.beq l m = true ↔ _
  simp only [instBEqLength.beq, Bool.and_eq_true, beq_iff_eq]
  exact ⟨fun ⟨hnumber, hunit⟩ => ⟨hnumber, hunit⟩, fun h => ⟨h.number, h.unit⟩⟩

theorem beq_iff_rel {α : Type} [BEq α] {R : α → α → Prop} (hR : ∀ x y, (x == y) = true ↔ R x y)
    {x? y? : Option α} : (x? == y?) = true ↔ Option.Rel R x? y? := by
  cases x? <;> cases y?
  case some.some x y => rw [Option.some_beq_some, hR, Option.rel_some_some]
  case none.none => exact iff_of_true rfl .none
  all_goals exact iff_of_false nofun nofun

theorem beq_iff_forall₂ {α : Type} [BEq α] {R : α → α → Prop} (hR : ∀ x y, (x == y) = true ↔ R x y)
    {xs ys : List α} : (xs == ys) = true ↔ List.Forall₂ R xs ys := by
  induction xs generalizing ys with
  | nil =>
    cases ys with
    | nil => exact iff_of_true rfl .nil
    | cons y ys => exact iff_of_false nofun nofun
  | cons x xs ih =>
    cases ys with
    | nil => exact iff_of_false nofun nofun
    | cons y ys => rw [List.cons_beq_cons, Bool.and_eq_true, hR, ih, List.forall₂_cons]

theorem Border.beq_iff {a b : Border} : (a == b) = true ↔ a.Alike b := by
  change instBEqBorder.beq a b = true ↔ _
  simp only [instBEqBorder.beq, Bool.and_eq_true, beq_iff_eq, beq_iff_rel @Length.beq_iff]
  exact ⟨fun ⟨hwidth, hstyle, hcolor⟩ => ⟨hwidth, hstyle, hcolor⟩,
    fun h => ⟨h.width, h.style, h.color⟩⟩

theorem Value.beq_iff {v w : Value} : (v == w) = true ↔ v.Alike w := by
  change instBEqValue.beq v w = true ↔ _
  constructor
  · intro h
    cases v <;> cases w
    case keyword.keyword s t =>
      obtain rfl : s = t := eq_of_beq h
      exact .keyword s
    case raw.raw s t =>
      obtain rfl : s = t := eq_of_beq h
      exact .raw s
    case length.length => exact .length (Length.beq_iff.mp h)
    case color.color c d =>
      obtain rfl : c = d := eq_of_beq h
      exact .color c
    case border.border => exact .border (Border.beq_iff.mp h)
    all_goals exact absurd h Bool.false_ne_true
  · rintro (_ | _ | h | _ | h)
    · exact beq_self_eq_true _
    · exact beq_self_eq_true _
    · exact Length.beq_iff.mpr h
    · exact beq_self_eq_true _
    · exact Border.beq_iff.mpr h

theorem Rule.beq_iff {r r' : Rule} : (r == r') = true ↔ r.Alike r' := by
  have hentry (e f : Slot × Value) : (e == f) = true ↔ e.1 = f.1 ∧ e.2.Alike f.2 := by
    rw [← Value.beq_iff, ← beq_iff_eq (a := e.1), ← Bool.and_eq_true]
    rfl
  have hprops : (r.props == r'.props) = true ↔
      List.Forall₂ (fun e f => e.1 = f.1 ∧ e.2.Alike f.2) r.props.entries r'.props.entries :=
    beq_iff_forall₂ hentry
  change instBEqRule.beq r r' = true ↔ _
  simp only [instBEqRule.beq, Bool.and_eq_true, beq_iff_eq, hprops]
  exact ⟨fun ⟨hselector, hentries, hcustom⟩ => ⟨hselector, hentries, hcustom⟩,
    fun h => ⟨h.selector, h.entries, h.custom⟩⟩

/-- **Equal sheets are those that are alike.** -/
theorem Sheet.beq_iff {a b : Sheet} : (a == b) = true ↔ a.Alike b :=
  beq_iff_forall₂ @Rule.beq_iff

/-! ### Values -/

namespace Length.Alike

variable {l m : Length}

theorem css_eq (h : l.Alike m) : l.css = m.css := by
  unfold css
  rw [h.unit, Binary64.isZero_congr h.number, Binary64.text_congr h.number]

theorem requireFinite_eq (h : l.Alike m) (s : Slot) : l.requireFinite s = m.requireFinite s := by
  have hdefect : l.nonFinite? = m.nonFinite? := by
    unfold nonFinite? magnitude?
    rw [h.unit]
    split
    · exact Binary64.nonFinite?_congr h.number
    · rfl
  unfold requireFinite
  rw [hdefect]

end Length.Alike

namespace Border.Alike

variable {a b : Border}

theorem width_eq (h : a.Alike b) : a.width?.map Length.css = b.width?.map Length.css := by
  have hwidth := h.width
  generalize a.width? = l?, b.width? = m? at hwidth
  cases hwidth with
  | none => rfl
  | some hlm => exact congrArg some hlm.css_eq

theorem css?_eq (h : a.Alike b) : a.css? = b.css? := by
  unfold css? partTexts
  rw [h.width_eq, h.style, h.color]

theorem widthDeclarations_eq (h : a.Alike b) : a.widthDeclarations = b.widthDeclarations := by
  have hwidth := h.width
  unfold widthDeclarations
  generalize a.width? = l?, b.width? = m? at hwidth
  cases hwidth with
  | none => rfl
  | some hlm => simp only [hlm.requireFinite_eq, hlm.css_eq]

theorem declarations_eq (h : a.Alike b) : a.declarations = b.declarations := by
  unfold declarations styleDeclarations colorDeclarations
  rw [h.widthDeclarations_eq, h.style, h.color]

end Border.Alike

namespace Value.Alike

variable {v w : Value}

theorem kind_eq (h : v.Alike w) : v.kind = w.kind := by
  cases h <;> rfl

/-- **Values that are alike have the same text.** -/
theorem css?_eq (h : v.Alike w) : v.css? = w.css? := by
  cases h with
  | keyword | raw | color => rfl
  | length h => exact congrArg some h.css_eq
  | border h => exact h.css?_eq

/-- **Values that are alike resolve to the same declarations**, or are refused with the same
error. -/
theorem resolve_eq (h : v.Alike w) (s : Slot) : s.resolve v = s.resolve w := by
  have hkind := h.kind_eq
  have hcss := h.css?_eq
  unfold Slot.resolve Slot.accepts Slot.plain
  cases h with
  | keyword | raw | color => rfl
  | length h => simp only [hkind, hcss, h.requireFinite_eq]
  | border h => simp only [hkind, h.declarations_eq]

end Value.Alike

/-! ### Rules and sheets -/

namespace Rule.Alike

variable {r r' : Rule}

theorem typed_eq (h : r.Alike r') : r.typed = r'.typed := by
  have hdeclare : r.props.entries.mapM (fun e => e.1.declare e.2) =
      r'.props.entries.mapM fun e => e.1.declare e.2 := by
    have hentries := h.entries
    generalize r.props.entries = es, r'.props.entries = fs at hentries
    induction hentries with
    | nil => rfl
    | @cons e f _ _ hef _ ih =>
      have hdeclare : e.1.declare e.2 = f.1.declare f.2 := by
        unfold Slot.declare
        rw [hef.1, hef.2.resolve_eq]
      rw [List.mapM_cons, List.mapM_cons, hdeclare, ih]
  unfold typed
  rw [hdeclare]

theorem reportedBlock_eq (h : r.Alike r') (options : Options) (index : Nat) :
    r.reportedBlock options index = r'.reportedBlock options index := by
  unfold reportedBlock block requireSelector requireNames
  rw [h.selector, h.typed_eq, h.custom]

end Rule.Alike

theorem Rule.blocksFrom_eq_of_alike {rules rules' : List Rule}
    (h : List.Forall₂ Rule.Alike rules rules') (start : Nat) (options : Options) :
    blocksFrom start rules options = blocksFrom start rules' options := by
  induction h generalizing start with
  | nil => rfl
  | cons hr _ ih => rw [blocksFrom_cons, blocksFrom_cons, hr.reportedBlock_eq, ih]

namespace Sheet

/-- **Sheets that are alike have the same compilation**: the same text in the output or the same
error, and the same events. -/
theorem Alike.writeTo_eq {σ : Type} [Output σ] {a b : Sheet} (h : a.Alike b) (options : Options)
    (sink : σ) : a.writeTo options sink = b.writeTo options sink := by
  have hsize : a.size = b.size := List.Forall₂.length_eq h
  have hblocks : a.blocks options = b.blocks options := Rule.blocksFrom_eq_of_alike h 0 options
  unfold writeTo
  rw [hsize, hblocks]

/-- **What is equal compiles equally.** Sheets are equal exactly if they are alike, and then they
have the same compilation; equal values have the same text and resolve to the same declarations. -/
theorem equal_compile_equally :
    (∀ a b : Sheet, (a == b) = true ↔ a.Alike b) ∧
    (∀ a b : Sheet, (a == b) = true → ∀ {σ : Type} [Output σ] (options : Options) (sink : σ),
      a.writeTo options sink = b.writeTo options sink ∧
        a.compile options = b.compile options) ∧
    ∀ v w : Value, (v == w) = true → v.css? = w.css? ∧ ∀ s : Slot, s.resolve v = s.resolve w := by
  refine ⟨fun a b => beq_iff, fun a b h _ _ options sink => ?_, fun v w h => ?_⟩
  · have halike := beq_iff.mp h
    refine ⟨halike.writeTo_eq options sink, ?_⟩
    unfold compile
    rw [halike.writeTo_eq]
  · have halike := Value.beq_iff.mp h
    exact ⟨halike.css?_eq, halike.resolve_eq⟩

/-- The two zeros, on a slot and as the width of a border, and the same with their signs
exchanged; and an error after them. -/
theorem equal_compile_equally_zeros :
    ∃ a b faulty : Sheet, a ≠ b ∧ (a == b) = true ∧ (a ++ faulty == b ++ faulty) = true ∧
      a.compile {} = .ok "x{border-width:0;width:0;}" ∧
      b.compile {} = .ok "x{border-width:0;width:0;}" ∧
      ((b ++ faulty).writeTo {} {}).result = .error (.notFinite .top (.infinite true)) := by
  let zeros (x y : Binary64) : Sheet :=
    ⟨[⟨"x", .ofList [(.width, .length ⟨x, .px⟩), (.border, .border ⟨some ⟨y, .em⟩, none, none⟩)],
      []⟩]⟩
  let a := zeros ⟨false, 0⟩ ⟨true, 0⟩
  let b := zeros ⟨true, 0⟩ ⟨false, 0⟩
  let faulty : Sheet := ⟨[⟨"y", .ofList [(.top, .length ⟨.ofWord 0xfff0000000000000, .px⟩)], []⟩]⟩
  have hne : a ≠ b := by
    intro h
    have hwidth := congrArg (fun s : Sheet => s.rules.head?.bind (·.props.get? .width)) h
    have hlength : Value.length ⟨⟨false, 0⟩, .px⟩ = .length ⟨⟨true, 0⟩, .px⟩ :=
      Option.some.inj hwidth
    cases hlength
  have htext : a.compile {} = .ok "x{border-width:0;width:0;}" := rfl
  have herror : ((a ++ faulty).writeTo {} {}).result =
    .error (.notFinite .top (.infinite true)) := rfl
  have hequal := (equal_compile_equally.2.1 a b rfl {} {}).2
  have hequal' := (equal_compile_equally.2.1 (a ++ faulty) (b ++ faulty) rfl {} {}).1
  rw [hequal'] at herror
  exact ⟨a, b, faulty, hne, rfl, rfl, htext, hequal.symm.trans htext, herror⟩

end Sheet

end Cascade
