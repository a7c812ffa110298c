import Cascade.Proofs.Lowering
import Cascade.Proofs.Omission
import Cascade.Proofs.Positional

/-! # Visible texts

A text is *visible* if there is more in it than white space. A value that has a text has a visible
one, however the text comes about: by writing a number, by taking a color apart, by joining the
parts of a border, or as it was given. So no slot ever makes a declaration that is empty
(`Slot.no_empty_declaration`). -/

namespace Cascade

/-! ### Visible texts -/

namespace Text

/-- A text with a character that is not white space. -/
def Visible (s : String) : Prop := ∃ c ∈ s.toList, isSpace c = false

variable {s t : String}

theorem visible_iff : Visible s ↔ isBlank s = false := by
  unfold Visible isBlank
  rw [← Bool.not_eq_true, List.all_eq_true]
  push Not
  simp only [Bool.not_eq_true]

instance (s : String) : Decidable (Visible s) := decidable_of_iff _ visible_iff.symm

theorem Visible.append_right (h : Visible s) : Visible (s ++ t) := by
  obtain ⟨c, hc, hspace⟩ := h
  refine ⟨c, ?_, hspace⟩
  rw [String.toList_append]
  exact List.mem_append_left _ hc

theorem Visible.intercalate (h : Visible s) (sep : String) (texts : List String) :
    Visible (sep.intercalate (s :: texts)) := by
  cases texts with
  | nil => rwa [String.intercalate_singleton]
  | cons t texts =>
    rw [String.intercalate_cons_cons, String.append_assoc]
    exact h.append_right

theorem visible_of_nonBlank? (h : nonBlank? s = some t) : Visible t := by
  unfold nonBlank? at h
  split_ifs at h with hblank
  rw [← Option.some.inj h, visible_iff]
  exact eq_false_of_ne_true hblank

theorem isSpace_of_isDigit {c : Char} (h : c.isDigit = true) : isSpace c = false := by
  have hrange : 48 ≤ c.toNat ∧ c.toNat ≤ 57 := by
    simpa [Char.isDigit, UInt32.le_iff_toNat_le] using h
  apply eq_false_of_ne_true
  simp only [isSpace, spaceRanges, List.any_cons, List.any_nil, Bool.or_eq_true, Bool.and_eq_true,
    decide_eq_true_eq, Bool.false_eq_true, or_false]
  omega

end Text

open Text (Visible)

/-! ### Texts of values -/

theorem Decimal.visible_text (d : Decimal) : Visible (String.ofList d.text) := by
  obtain ⟨c, hc, hspace⟩ : ∃ c ∈ d.magnitudeText, Text.isSpace c = false := by
    unfold magnitudeText
    cases d.exponent with
    | ofNat zeros =>
      obtain ⟨c, hc⟩ := List.exists_mem_of_ne_nil (numeral d.digits) Nat.toDigits_ne_nil
      exact ⟨c, List.mem_append_left _ hc, Text.isSpace_of_isDigit (isDigit_of_mem_numeral hc)⟩
    | negSucc n => exact ⟨'.', List.mem_append_right _ List.mem_cons_self, by decide⟩
  refine ⟨c, ?_, hspace⟩
  rw [String.toList_ofList, text]
  split
  · exact List.mem_cons_of_mem _ hc
  · exact hc

theorem NonFinite.visible_text (defect : NonFinite) : Visible defect.text := by
  rcases defect with _ | (_ | _) <;> decide

theorem Binary64.visible_text (x : Binary64) : Visible x.text := by
  unfold text
  cases x.nonFinite? with
  | some defect => exact defect.visible_text
  | none =>
    dsimp only
    split
    · decide
    · exact x.shortest.visible_text

theorem Length.visible_css (l : Length) : Visible l.css := by
  unfold css
  split
  · decide
  · decide
  · split
    · decide
    · exact l.number.visible_text.append_right

theorem Color.visible_css? {c : Color} {text : String} (h : c.css? = some text) :
    Visible text := by
  cases c with
  | inherit | transparent | currentColor =>
    obtain rfl := Option.some.inj h
    decide
  | named _ | function _ => exact Text.visible_of_nonBlank? h
  | hex digits =>
    unfold css? at h
    dsimp only at h
    split at h
    · cases h
    · obtain rfl := Option.some.inj h
      refine ⟨'#', ?_, by decide⟩
      rw [String.toList_ofList]
      exact List.mem_cons_self

theorem BorderStyle.visible_text (style : BorderStyle) : Visible (Keyword.text style) := by
  cases style <;> decide

namespace Border

variable {b : Border} {text : String}

theorem visible_of_mem_partTexts (h : text ∈ b.partTexts) : Visible text := by
  simp only [partTexts, List.mem_filterMap, List.mem_cons, List.not_mem_nil, or_false, id,
    exists_eq_right] at h
  rcases h with h | h | h
  · obtain ⟨width, -, rfl⟩ := Option.map_eq_some_iff.mp h.symm
    exact width.visible_css
  · obtain ⟨style, -, rfl⟩ := Option.map_eq_some_iff.mp h.symm
    exact style.visible_text
  · obtain ⟨color, -, hcolor⟩ := Option.bind_eq_some_iff.mp h.symm
    exact Color.visible_css? hcolor

theorem visible_css? (h : b.css? = some text) : Visible text := by
  unfold css? at h
  split at h
  · cases h
  · next hne =>
    obtain ⟨first, parts, hparts⟩ := List.exists_cons_of_ne_nil hne
    have hfirst : first ∈ b.partTexts := hparts ▸ List.mem_cons_self
    obtain rfl := Option.some.inj h
    rw [hparts]
    exact (visible_of_mem_partTexts hfirst).intercalate _ _

end Border

/-- **A text of a value is visible.** -/
theorem Value.visible_css? {v : Value} {text : String} (h : v.css? = some text) :
    Visible text := by
  cases v with
  | keyword _ | raw _ => exact Text.visible_of_nonBlank? h
  | length l =>
    obtain rfl := Option.some.inj h
    exact l.visible_css
  | color c => exact Color.visible_css? h
  | border b => exact Border.visible_css? h

/-! ### Declarations of slots -/

variable {s : Slot} {v : Value} {ds : List Declaration} {d : Declaration}

theorem Border.visible_of_mem_declarations {b : Border} (h : b.declarations = .ok ds)
    (hd : d ∈ ds) : Visible d.value := by
  apply visible_of_mem_partTexts
  rw [← map_value_declarations h]
  exact List.mem_map_of_mem hd

theorem Declaration.sublist_names_ofText? (name : String) (text? : Option String) :
    (((ofText? name text?).map Declaration.name).Sublist [name]) := by
  cases text? with
  | none => exact List.nil_sublist _
  | some text => exact List.Sublist.refl _

/-- The parts of a border are declared in their order, each once at most. -/
theorem Border.sublist_names_declarations {b : Border} (h : b.declarations = .ok ds) :
    (ds.map Declaration.name).Sublist ["border-width", "border-style", "border-color"] := by
  obtain ⟨width, hwidth, h⟩ := Outcome.bind_eq_ok_iff.mp h
  rw [← Except.ok.inj h, widthDeclarations_eq hwidth, styleDeclarations_eq, colorDeclarations_eq,
    List.map_append, List.map_append]
  have hsublist := Declaration.sublist_names_ofText?
  exact ((hsublist _ _).append (hsublist _ _)).append (hsublist _ _)

namespace Slot

theorem eq_of_mem_plain (hd : d ∈ s.plain v) : d.name = s.name ∧ v.css? = some d.value := by
  unfold plain at hd
  cases hv : v.css? with
  | none =>
    rw [hv] at hd
    cases hd
  | some text =>
    rw [hv] at hd
    obtain rfl := List.mem_singleton.mp hd
    exact ⟨rfl, rfl⟩

theorem length_plain_le (s : Slot) (v : Value) : (s.plain v).length ≤ 1 := by
  unfold plain
  cases v.css? <;> simp

theorem visible_of_mem_resolve (h : s.resolve v = .ok ds) (hd : d ∈ ds) : Visible d.value := by
  by_cases hs : s.isComposite = true
  · obtain ⟨b, -, hb⟩ := resolve_eq_border h hs
    exact Border.visible_of_mem_declarations hb hd
  · rw [resolve_eq_plain h (eq_false_of_ne_true hs)] at hd
    exact Value.visible_css? (eq_of_mem_plain hd).2

/-- **No slot makes an empty declaration.** A value has a visible text, or none if it is blank. So
what a slot declares has a visible value and the name of a slot that stands for one property: its
own name, or the names of the parts of a border in their order, none of them twice. -/
theorem no_empty_declaration :
    (∀ (v : Value) (text : String), v.css? = some text → Visible text) ∧
    (∀ v : Value, v.css? = none ↔ v.Blank) ∧
    ∀ (s : Slot) (v : Value) (ds : List Declaration), s.resolve v = .ok ds →
      (∀ d ∈ ds, Visible d.value ∧ ∃ t, ofName? d.name = some t ∧ t.isComposite = false) ∧
      (s.isComposite = false → ds.length ≤ 1 ∧ ∀ d ∈ ds, d.name = s.name) ∧
      (s.isComposite = true → (ds.map Declaration.name).Nodup ∧
        (ds.map Declaration.name).Sublist ["border-width", "border-style", "border-color"]) := by
  refine ⟨fun v text h => Value.visible_css? h, fun v => Value.css?_eq_none_iff,
    fun s v ds h => ⟨fun d hd => ⟨visible_of_mem_resolve h hd, ?_⟩, fun hs => ?_, fun hs => ?_⟩⟩
  · obtain ⟨t, ht, hname⟩ := exists_name_of_mem_resolve h hd
    exact ⟨t, ofName?_eq_some_iff.mpr hname, ht⟩
  · rw [resolve_eq_plain h hs]
    exact ⟨length_plain_le s v, fun d hd => (eq_of_mem_plain hd).1⟩
  · obtain ⟨b, -, hb⟩ := resolve_eq_border h hs
    have hsublist := Border.sublist_names_declarations hb
    exact ⟨hsublist.nodup (by decide), hsublist⟩

/-- A border of which only the color is declared, on the slot of borders, and raw text on a slot of
lengths. -/
theorem no_empty_declaration_color : ∃ b : Border, b = ⟨none, none, some (.hex " #f00 ")⟩ ∧
    border.resolve (.border b) = .ok [⟨"border-color", "#f00"⟩] ∧ Visible "#f00" ∧
    ofName? "border-color" = some borderColor ∧
    width.resolve (.raw " 1px") = .ok [⟨"width", " 1px"⟩] ∧ Visible " 1px" := by
  let b : Border := ⟨none, none, some (.hex " #f00 ")⟩
  have hb : border.resolve (.border b) = .ok [⟨"border-color", "#f00"⟩] := by decide +kernel
  have hraw : width.resolve (.raw " 1px") = .ok [⟨"width", " 1px"⟩] := by decide +kernel
  obtain ⟨hvisible, -⟩ := (no_empty_declaration.2.2 _ _ _ hb).1 _ List.mem_cons_self
  obtain ⟨hvisible', -⟩ := (no_empty_declaration.2.2 _ _ _ hraw).1 _ List.mem_cons_self
  exact ⟨b, rfl, hb, hvisible, rfl, hraw, hvisible'⟩

end Slot

end Cascade
