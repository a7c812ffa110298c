import Cascade.Length.Basic
import Cascade.Proofs.Binary64.Shortest
import Cascade.Proofs.Positional

/-! # The text of a length

A finite length is written as a keyword, as `0`, or as a positional decimal with the suffix of its
unit. The decimal is read from the front of the text, and the number of the length is the one
nearest to it. So no two lengths have the same text unless they are the same keyword, both zero, or
the same number in the same unit (`Length.css_eq_iff`).

Main statement: `Length.css_reads_back`. -/

namespace Cascade

namespace LengthUnit

/-- A suffix does not continue the digits before it. -/
theorem stops_suffix (unit : LengthUnit) : Positional.Stops unit.suffix.toList := by
  intro c hc
  cases unit <;> simp [suffix] at hc <;> subst hc <;> decide

theorem hasMagnitude_iff {unit : LengthUnit} :
    unit.hasMagnitude = true ↔ unit ≠ .auto ∧ unit ≠ .inherit := by
  cases unit <;> decide

theorem suffix_injective {unit other : LengthUnit} (hunit : unit.hasMagnitude = true)
    (hother : other.hasMagnitude = true) (h : unit.suffix = other.suffix) : unit = other := by
  revert hunit hother h
  cases unit <;> cases other <;> decide

end LengthUnit

namespace Length

variable {l l' : Length}

theorem isZero_iff : l.isZero = true ↔ l.unit.hasMagnitude = true ∧ l.number.isZero = true := by
  unfold isZero magnitude?
  cases l.unit.hasMagnitude <;> simp

theorem isFinite_number (h : l.isFinite = true) (hunit : l.unit.hasMagnitude = true) :
    l.number.isFinite = true := by
  unfold isFinite magnitude? at h
  rw [hunit] at h
  exact h

theorem css_of_hasMagnitude (h : l.unit.hasMagnitude = true) :
    l.css = if l.number.isZero then "0" else l.number.text ++ l.unit.suffix := by
  unfold css
  cases hunit : l.unit
  case auto | inherit => rw [hunit] at h; cases h
  all_goals rfl

/-! ### Lengths with a decimal -/

/-- The length is written as a positional decimal of its number, followed by the suffix of its
unit. -/
structure WrittenAs (l : Length) (p : Positional) : Prop where
  hasMagnitude : l.unit.hasMagnitude = true
  isZero : l.number.isZero = false
  canonical : p.Canonical
  toList_css : l.css.toList = p.text ++ l.unit.suffix.toList
  nearest : Binary64.IsNearest p.decimal.value l.number

/-- **A finite length other than zero is written as a positional decimal of its number.** -/
theorem exists_writtenAs (h : l.isFinite = true) (hunit : l.unit.hasMagnitude = true)
    (hzero : l.number.isZero = false) : ∃ p, l.WrittenAs p := by
  have hfinite := isFinite_number h hunit
  refine ⟨l.number.shortest.positional, hunit, hzero, ?_, ?_, ?_⟩
  · exact Decimal.canonical_positional (Binary64.digits_shortest_mod_ten hzero)
  · rw [css_of_hasMagnitude hunit, hzero, if_neg Bool.false_ne_true,
      Binary64.text_of_isFinite hfinite hzero, String.toList_append, String.toList_ofList,
      Decimal.text_positional]
  · rw [Decimal.value_positional]
    exact Binary64.isNearest_shortest hfinite hzero

namespace WrittenAs

variable {p p' : Positional}

theorem read_css (h : l.WrittenAs p) :
    Positional.read l.css.toList = (p, l.unit.suffix.toList) := by
  rw [h.toList_css]
  exact Positional.read_text_append h.canonical l.unit.stops_suffix

theorem isNearest_iff (h : l.WrittenAs p) {x : Binary64} :
    Binary64.IsNearest p.decimal.value x ↔ x = l.number := by
  constructor
  · intro hx
    exact (h.nearest.eq hx h.isZero).symm
  · rintro rfl
    exact h.nearest

theorem ofDecimal_eq (h : l.WrittenAs p) : Binary64.ofDecimal p.decimal = l.number :=
  h.isNearest_iff.mp (Binary64.isNearest_ofDecimal p.decimal)

/-- The text determines the number and the unit. -/
theorem eq_of_css_eq (h : l.WrittenAs p) (h' : l'.WrittenAs p') (hcss : l.css = l'.css) :
    l.unit = l'.unit ∧ l.number = l'.number := by
  have hread := h.read_css
  rw [hcss, h'.read_css] at hread
  obtain ⟨rfl, hsuffix⟩ := Prod.mk.inj hread
  refine ⟨LengthUnit.suffix_injective h.hasMagnitude h'.hasMagnitude ?_, ?_⟩
  · exact String.toList_inj.mp hsuffix.symm
  · rw [← h.ofDecimal_eq, h'.ofDecimal_eq]

/-- A text that begins with no decimal, or with one of zero, is another one. -/
theorem css_ne (h : l.WrittenAs p) {text : String}
    (hzero : (Binary64.ofDecimal (Positional.read text.toList).1.decimal).isZero = true) :
    l.css ≠ text := by
  rintro rfl
  have hnonzero := h.isZero
  rw [← h.ofDecimal_eq] at hnonzero
  rw [h.read_css, hnonzero] at hzero
  cases hzero

end WrittenAs

/-! ### Lengths with a fixed text -/

/-- The text of a length that is not written as a decimal: a keyword, or zero. -/
def fixedText? (l : Length) : Option String :=
  if l.unit = .auto then some "auto"
  else if l.unit = .inherit then some "inherit"
  else if l.isZero then some "0"
  else none

theorem css_of_fixedText? {text : String} (h : l.fixedText? = some text) : l.css = text := by
  unfold fixedText? at h
  split_ifs at h with hauto hinherit hzero <;> obtain rfl := Option.some.inj h
  · rw [css, hauto]
  · rw [css, hinherit]
  · obtain ⟨hunit, hnumber⟩ := isZero_iff.mp hzero
    rw [css_of_hasMagnitude hunit, if_pos hnumber]

theorem reads_zero_of_fixedText? {text : String} (h : l.fixedText? = some text) :
    (Binary64.ofDecimal (Positional.read text.toList).1.decimal).isZero = true := by
  unfold fixedText? at h
  split_ifs at h <;> obtain rfl := Option.some.inj h <;> decide +kernel

theorem exists_writtenAs_of_fixedText? (h : l.isFinite = true) (hnone : l.fixedText? = none) :
    ∃ p, l.WrittenAs p := by
  unfold fixedText? at hnone
  split_ifs at hnone with hauto hinherit hzero
  have hunit : l.unit.hasMagnitude = true := by
    revert hauto hinherit
    cases l.unit <;> simp [LengthUnit.hasMagnitude]
  refine exists_writtenAs h hunit (eq_false_of_ne_true fun hnumber => hzero ?_)
  exact isZero_iff.mpr ⟨hunit, hnumber⟩

/-- **Two finite lengths have the same text** exactly if it is the same fixed text, or the same
number in the same unit. -/
theorem css_eq_iff (h : l.isFinite = true) (h' : l'.isFinite = true) : l.css = l'.css ↔
    l.fixedText? = l'.fixedText? ∧
      (l.fixedText? = none → l.unit = l'.unit ∧ l.number = l'.number) := by
  cases hl : l.fixedText? with
  | some text =>
    rw [css_of_fixedText? hl]
    cases hl' : l'.fixedText? with
    | some text' =>
      rw [css_of_fixedText? hl']
      simp
    | none =>
      obtain ⟨p', hp'⟩ := exists_writtenAs_of_fixedText? h' hl'
      simpa using (hp'.css_ne (reads_zero_of_fixedText? hl)).symm
  | none =>
    obtain ⟨p, hp⟩ := exists_writtenAs_of_fixedText? h hl
    cases hl' : l'.fixedText? with
    | some text' =>
      rw [css_of_fixedText? hl']
      simpa using hp.css_ne (reads_zero_of_fixedText? hl')
    | none =>
      obtain ⟨p', hp'⟩ := exists_writtenAs_of_fixedText? h' hl'
      refine ⟨fun hcss => ⟨rfl, fun _ => hp.eq_of_css_eq hp' hcss⟩, fun hsame => ?_⟩
      obtain ⟨hunit, hnumber⟩ := hsame.2 rfl
      rw [css, css, hunit, hnumber]

theorem same_text_iff : (l.fixedText? = l'.fixedText? ∧
    (l.fixedText? = none → l.unit = l'.unit ∧ l.number = l'.number)) ↔
      l.unit = .auto ∧ l'.unit = .auto ∨ l.unit = .inherit ∧ l'.unit = .inherit ∨
      l.isZero = true ∧ l'.isZero = true ∨
      l.unit = l'.unit ∧ l.unit.hasMagnitude = true ∧ l.number = l'.number ∧
        l.number.isZero = false := by
  have hzero := @isZero_iff l
  have hzero' := @isZero_iff l'
  rw [LengthUnit.hasMagnitude_iff] at *
  unfold fixedText?
  split_ifs <;> grind

/-- **The text of a finite length reads back to the length.** It is a keyword, `0`, or a positional
decimal without superfluous zeros before the suffix of the unit; the decimal is what can be read
from the front of the text, and the number of the length is the only one nearest to it. -/
theorem css_reads_back (h : l.isFinite = true) :
    (l.unit = .auto → l.css = "auto") ∧
    (l.unit = .inherit → l.css = "inherit") ∧
    (l.unit.hasMagnitude = true → l.number.isZero = true → l.css = "0") ∧
    (l.unit.hasMagnitude = true → l.number.isZero = false →
      ∃ p : Positional, p.Canonical ∧ l.css.toList = p.text ++ l.unit.suffix.toList ∧
        Positional.read l.css.toList = (p, l.unit.suffix.toList) ∧
        Binary64.ofDecimal p.decimal = l.number ∧
        ∀ x, Binary64.IsNearest p.decimal.value x ↔ x = l.number) ∧
    ∀ l' : Length, l'.isFinite = true → (l.css = l'.css ↔
      l.unit = .auto ∧ l'.unit = .auto ∨ l.unit = .inherit ∧ l'.unit = .inherit ∨
      l.isZero = true ∧ l'.isZero = true ∨
      l.unit = l'.unit ∧ l.unit.hasMagnitude = true ∧ l.number = l'.number ∧
        l.number.isZero = false) := by
  refine ⟨fun hunit => by rw [css, hunit], fun hunit => by rw [css, hunit],
    fun hunit hzero => by rw [css_of_hasMagnitude hunit, if_pos hzero], fun hunit hzero => ?_,
    fun l' h' => ?_⟩
  · obtain ⟨p, hp⟩ := exists_writtenAs h hunit hzero
    exact ⟨p, hp.canonical, hp.toList_css, hp.read_css, hp.ofDecimal_eq, fun x => hp.isNearest_iff⟩
  · rw [css_eq_iff h h', same_text_iff]

/-- A negative length below one, which the same number in another unit is not taken for. -/
theorem css_reads_back_negative :
    ∃ (l : Length) (p : Positional), l = ⟨.ofWord 0xbfd0000000000000, .em⟩ ∧ l.isFinite = true ∧
      l.css = "-0.25em" ∧ p = ⟨true, ['0'], ['2', '5']⟩ ∧ p.Canonical ∧
      Binary64.ofDecimal p.decimal = l.number ∧
      (∀ x, Binary64.IsNearest p.decimal.value x ↔ x = l.number) ∧
      l.css ≠ css ⟨l.number, .px⟩ := by
  let l : Length := ⟨.ofWord 0xbfd0000000000000, .em⟩
  have hfinite : l.isFinite = true := rfl
  have hcss : l.css = "-0.25em" := by decide +kernel
  obtain ⟨-, -, -, hdecimal, hsame⟩ := css_reads_back hfinite
  obtain ⟨p, hp, -, hread, hof, hnearest⟩ := hdecimal rfl rfl
  rw [hcss] at hread
  refine ⟨l, p, rfl, hfinite, hcss, (congrArg Prod.fst hread).symm, hp, hof, hnearest, ?_⟩
  intro heq
  rcases (hsame ⟨l.number, .px⟩ rfl).mp heq with ⟨h, -⟩ | ⟨h, -⟩ | ⟨h, -⟩ | ⟨h, -⟩ <;> cases h

end Length

end Cascade
