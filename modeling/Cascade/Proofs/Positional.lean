import Cascade.Proofs.Binary64.Rounding
import Mathlib.Data.List.TakeWhile

/-! # Positional decimals

A decimal is written positionally: a minus sign if it is negative, the digits before the point, and
if there are any, the point and the digits after it. Such a text is read up to the first character
that cannot continue it, and what is read has the value of the decimal that was written.

Main statements:
- `Positional.read_text_append`: reading undoes writing, whatever text without a digit or a point in
  front comes after it.
- `Decimal.text_positional`, `Decimal.value_positional`: a decimal is written as a positional
  decimal of its value.
- `Decimal.canonical_positional`: no superfluous zero is written. -/

namespace Cascade

/-- A sign, the digits before the point and the digits after it. -/
structure Positional where
  negative : Bool
  whole : List Char
  places : List Char
  deriving DecidableEq, Repr

namespace Positional

/-- The text of a positional decimal. It has no point if there is no digit after it. -/
def text (p : Positional) : List Char :=
  (if p.negative then ['-'] else []) ++ (p.whole ++ if p.places = [] then [] else '.' :: p.places)

/-- The decimal that a positional one stands for. -/
def decimal (p : Positional) : Decimal :=
  ⟨p.negative, Nat.ofDigitChars 10 (p.whole ++ p.places) 0, -p.places.length⟩

/-- Digits only, at least one before the point, and no superfluous zero: none in front of other
digits before the point, and none at the end after it. -/
structure Canonical (p : Positional) : Prop where
  isDigit_whole : ∀ c ∈ p.whole, c.isDigit = true
  isDigit_places : ∀ c ∈ p.places, c.isDigit = true
  whole_ne_nil : p.whole ≠ []
  leading_zero : p.whole.head? = some '0' → p.whole = ['0']
  trailing_zero : p.places.getLast? ≠ some '0'

/-! ### Reading -/

/-- Reads the places after a sign and the digits before the point. -/
def readPlaces (negative : Bool) (whole rest : List Char) : Positional × List Char :=
  if rest.head? = some '.' then
    (⟨negative, whole, rest.tail.takeWhile Char.isDigit⟩, rest.tail.dropWhile Char.isDigit)
  else (⟨negative, whole, []⟩, rest)

/-- Reads a positional decimal without its sign from the beginning of a text. -/
def readMagnitude (negative : Bool) (cs : List Char) : Positional × List Char :=
  readPlaces negative (cs.takeWhile Char.isDigit) (cs.dropWhile Char.isDigit)

/-- Reads a positional decimal from the beginning of a text, as far as it goes. -/
def read (cs : List Char) : Positional × List Char :=
  if cs.head? = some '-' then readMagnitude true cs.tail else readMagnitude false cs

/-- A text that does not continue a positional decimal. -/
def Stops (rest : List Char) : Prop := ∀ c, rest.head? = some c → c.isDigit = false ∧ c ≠ '.'

variable {ds rest : List Char}

theorem takeWhile_digits_append (hds : ∀ c ∈ ds, c.isDigit = true)
    (hrest : ∀ c, rest.head? = some c → c.isDigit = false) :
    (ds ++ rest).takeWhile Char.isDigit = ds := by
  rw [List.takeWhile_append_of_pos hds]
  cases rest with
  | nil => simp
  | cons c rest => simp [hrest c rfl]

theorem dropWhile_digits_append (hds : ∀ c ∈ ds, c.isDigit = true)
    (hrest : ∀ c, rest.head? = some c → c.isDigit = false) :
    (ds ++ rest).dropWhile Char.isDigit = rest := by
  rw [List.dropWhile_append_of_pos hds]
  cases rest with
  | nil => rfl
  | cons c rest => simp [hrest c rfl]

theorem readMagnitude_append {negative : Bool} {whole places : List Char}
    (hwhole : ∀ c ∈ whole, c.isDigit = true) (hplaces : ∀ c ∈ places, c.isDigit = true)
    (hrest : Stops rest) :
    readMagnitude negative (whole ++ (if places = [] then [] else '.' :: places) ++ rest) =
      (⟨negative, whole, places⟩, rest) := by
  have hdigit (c : Char) (hc : rest.head? = some c) : c.isDigit = false := (hrest c hc).1
  unfold readMagnitude
  rw [List.append_assoc]
  by_cases hnil : places = []
  · rw [if_pos hnil, List.nil_append, takeWhile_digits_append hwhole hdigit,
      dropWhile_digits_append hwhole hdigit, readPlaces, if_neg, hnil]
    exact fun hc => (hrest '.' hc).2 rfl
  · have hpoint (c : Char) (hc : ('.' :: places ++ rest).head? = some c) : c.isDigit = false := by
      obtain rfl := Option.some.inj hc
      rfl
    rw [if_neg hnil, takeWhile_digits_append hwhole hpoint, dropWhile_digits_append hwhole hpoint,
      readPlaces, if_pos (by rfl)]
    change (_, (places ++ rest).dropWhile Char.isDigit) = _
    rw [dropWhile_digits_append hplaces hdigit]
    change (Positional.mk _ _ ((places ++ rest).takeWhile Char.isDigit), _) = _
    rw [takeWhile_digits_append hplaces hdigit]

/-- **Reading undoes writing**, and leaves what comes after the text. -/
theorem read_text_append {p : Positional} (h : p.Canonical) (hrest : Stops rest) :
    read (p.text ++ rest) = (p, rest) := by
  have hmagnitude (negative : Bool) :=
    @readMagnitude_append _ negative _ _ h.isDigit_whole h.isDigit_places hrest
  obtain ⟨negative, whole, places⟩ := p
  unfold read text
  cases negative with
  | true => exact hmagnitude true
  | false =>
    obtain ⟨c, cs, rfl⟩ := List.exists_cons_of_ne_nil h.whole_ne_nil
    have hsign : c ≠ '-' := by
      rintro rfl
      have := h.isDigit_whole '-' List.mem_cons_self
      cases this
    rw [if_neg Bool.false_ne_true, List.nil_append, if_neg (by simpa using hsign)]
    exact hmagnitude false

end Positional

/-! ### Numerals -/

namespace Decimal

theorem isDigit_of_mem_numeral {n : ℕ} {c : Char} (h : c ∈ numeral n) : c.isDigit = true :=
  Nat.isDigit_of_mem_toDigits (by decide) (by decide) h

theorem digitChar_ne_zero {n : ℕ} (h : n < 10) (hn : n ≠ 0) : n.digitChar ≠ '0' := by
  revert n
  decide

theorem head?_numeral_ne_zero {n : ℕ} (hn : 0 < n) : (numeral n).head? ≠ some '0' := by
  unfold numeral
  induction n using Nat.strongRecOn with
  | ind n ih =>
    rcases Nat.lt_or_ge n 10 with hlt | hge
    · rw [Nat.toDigits_of_lt_base hlt, List.head?_cons, Ne, Option.some.injEq]
      exact digitChar_ne_zero hlt hn.ne'
    · rw [Nat.toDigits_of_base_le (by decide) hge, List.head?_append_of_ne_nil _ Nat.toDigits_ne_nil]
      exact ih (n / 10) (by omega) (by omega)

theorem getLast?_numeral (n : ℕ) : (numeral n).getLast? = some (n % 10).digitChar := by
  unfold numeral
  rcases Nat.lt_or_ge n 10 with hlt | hge
  · rw [Nat.toDigits_of_lt_base hlt, Nat.mod_eq_of_lt hlt]
    rfl
  · rw [Nat.toDigits_of_base_le (by decide) hge, List.getLast?_append]
    rfl

theorem getLast?_numeral_ne_zero {n : ℕ} (hn : n % 10 ≠ 0) : (numeral n).getLast? ≠ some '0' := by
  rw [getLast?_numeral, Ne, Option.some.injEq]
  exact digitChar_ne_zero (Nat.mod_lt _ (by decide)) hn

/-! ### Decimals as positional ones -/

/-- The decimal as it is written. -/
def positional (d : Decimal) : Positional :=
  match d.exponent with
  | .ofNat zeros => ⟨d.negative, numeral d.digits ++ List.replicate zeros '0', []⟩
  | .negSucc n =>
    let padded := padLeft (n + 2) (numeral d.digits)
    ⟨d.negative, padded.take (padded.length - (n + 1)), padded.drop (padded.length - (n + 1))⟩

variable {d : Decimal} {ds : List Char} {k : ℕ}

theorem length_padLeft : (padLeft k ds).length = max k ds.length := by
  unfold padLeft
  rw [List.length_append, List.length_replicate]
  omega

theorem text_positional (d : Decimal) : d.positional.text = d.text := by
  obtain ⟨negative, digits, exponent⟩ := d
  unfold positional Positional.text text magnitudeText
  cases exponent with
  | ofNat zeros => cases negative <;> simp
  | negSucc n =>
    have hne : (padLeft (n + 2) (numeral digits)).drop
        ((padLeft (n + 2) (numeral digits)).length - (n + 1)) ≠ [] := by
      rw [Ne, List.drop_eq_nil_iff, length_padLeft]
      omega
    dsimp only
    rw [if_neg hne]
    cases negative <;> rfl

theorem negative_positional (d : Decimal) : d.positional.decimal.negative = d.negative := by
  obtain ⟨negative, digits, exponent⟩ := d
  cases exponent <;> rfl

theorem magnitude_positional (d : Decimal) : d.positional.decimal.magnitude = d.magnitude := by
  obtain ⟨negative, digits, exponent⟩ := d
  unfold positional Positional.decimal magnitude
  cases exponent with
  | ofNat zeros =>
    have hdigits : Nat.ofDigitChars 10 (numeral digits ++ List.replicate zeros '0') 0 =
        10 ^ zeros * digits := by
      rw [Nat.ofDigitChars_append, Nat.ofDigitChars_replicate_zero, numeral,
        Nat.ofDigitChars_ten_toDigits]
    dsimp only
    rw [List.append_nil, hdigits, List.length_nil, Int.ofNat_eq_natCast, zpow_natCast]
    push_cast
    ring
  | negSucc n =>
    have hdigits : Nat.ofDigitChars 10 (padLeft (n + 2) (numeral digits)) 0 = digits := by
      rw [padLeft, Nat.ofDigitChars_append, Nat.ofDigitChars_replicate_zero, Nat.mul_zero, numeral,
        Nat.ofDigitChars_ten_toDigits]
    have hplaces : ((padLeft (n + 2) (numeral digits)).drop
        ((padLeft (n + 2) (numeral digits)).length - (n + 1))).length = n + 1 := by
      rw [List.length_drop, length_padLeft]
      omega
    dsimp only
    rw [List.take_append_drop, hdigits, hplaces]
    rfl

/-- **A decimal is written with its own value.** -/
theorem value_positional (d : Decimal) : d.positional.decimal.value = d.value := by
  rw [value, value, negative_positional, magnitude_positional]

theorem whole_padLeft (hds : ds ≠ []) (hhead : ds.head? ≠ some '0') :
    (padLeft (k + 1) ds).take ((padLeft (k + 1) ds).length - k) ≠ [] ∧
    (((padLeft (k + 1) ds).take ((padLeft (k + 1) ds).length - k)).head? = some '0' →
      (padLeft (k + 1) ds).take ((padLeft (k + 1) ds).length - k) = ['0']) := by
  rcases Nat.lt_or_ge k ds.length with hlt | hge
  · -- nothing is filled up, and the digits before the point begin like all digits
    have hpadded : padLeft (k + 1) ds = ds := by
      rw [padLeft, Nat.sub_eq_zero_of_le hlt, List.replicate_zero, List.nil_append]
    obtain ⟨j, hj⟩ : ∃ j, ds.length - k = j + 1 := ⟨ds.length - k - 1, by omega⟩
    obtain ⟨c, cs, rfl⟩ := List.exists_cons_of_ne_nil hds
    rw [hpadded, hj, List.take_succ_cons]
    exact ⟨List.cons_ne_nil _ _, fun h => absurd h hhead⟩
  · obtain ⟨j, hj⟩ : ∃ j, k + 1 - ds.length = j + 1 := ⟨k - ds.length, by omega⟩
    have hlength : (padLeft (k + 1) ds).length - k = 1 := by
      rw [length_padLeft]
      omega
    rw [hlength, padLeft, hj, List.replicate_succ, List.cons_append, List.take_succ_cons,
      List.take_zero]
    exact ⟨List.cons_ne_nil _ _, fun _ => rfl⟩

/-- **No superfluous zero is written** if the digits do not end in one. -/
theorem canonical_positional (hd : d.digits % 10 ≠ 0) : d.positional.Canonical := by
  have hpos : 0 < d.digits := by
    rcases Nat.eq_zero_or_pos d.digits with h | h
    · rw [h] at hd
      exact absurd rfl hd
    · exact h
  have hhead := head?_numeral_ne_zero hpos
  have hlast := getLast?_numeral_ne_zero hd
  have hne : numeral d.digits ≠ [] := Nat.toDigits_ne_nil
  unfold positional
  cases d.exponent with
  | ofNat zeros =>
    refine ⟨fun c hc => ?_, fun c hc => ?_, ?_, fun h => ?_, ?_⟩
    · rcases List.mem_append.mp hc with hc | hc
      · exact isDigit_of_mem_numeral hc
      · rw [List.eq_of_mem_replicate hc]
        rfl
    · cases hc
    · exact List.append_ne_nil_of_left_ne_nil hne _
    · dsimp only at h
      rw [List.head?_append_of_ne_nil _ hne] at h
      exact absurd h hhead
    · simp
  | negSucc n =>
    have hdigit (c : Char) (hc : c ∈ padLeft (n + 2) (numeral d.digits)) : c.isDigit = true := by
      rcases List.mem_append.mp hc with hc | hc
      · rw [List.eq_of_mem_replicate hc]
        rfl
      · exact isDigit_of_mem_numeral hc
    obtain ⟨hwhole, hzero⟩ := @whole_padLeft _ (n + 1) hne hhead
    refine ⟨fun c hc => hdigit c (List.mem_of_mem_take hc),
      fun c hc => hdigit c (List.mem_of_mem_drop hc), hwhole, hzero, ?_⟩
    dsimp only
    rw [List.getLast?_drop, if_neg (by rw [length_padLeft]; omega), padLeft,
      List.getLast?_append_of_ne_nil _ hne]
    exact hlast

end Decimal

end Cascade
