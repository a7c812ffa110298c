import Cascade.Proofs.Omission
import Mathlib.Data.List.DropRight

/-! # Hexadecimal colors

The text of a hexadecimal color is scanned twice: once for the white space around it, and once for
the number signs in front of what is left. What the two scans leave is written after one number
sign, and they leave it as it is when they meet it again. So the texts of hexadecimal colors are
normal forms (`HexNormal`), and these are the fixed points. Number signs and white space in front of
a text that does not begin with white space, or white space after it, change nothing.

Main statement: `Color.hex_normal_form`. -/

namespace Cascade

/-! ### Trimming -/

namespace Text

/-- The text does not begin with white space. -/
def FlushLeft (cs : List Char) : Prop := ∀ c ∈ cs.head?, isSpace c = false

/-- The text does not end with white space. -/
def FlushRight (cs : List Char) : Prop := ∀ c ∈ cs.getLast?, isSpace c = false

variable {c : Char} {cs before after : List Char}

theorem FlushLeft.cons (h : isSpace c = false) (cs : List Char) : FlushLeft (c :: cs) := by
  intro d hd
  obtain rfl := Option.some.inj hd
  exact h

theorem FlushLeft.trim_eq (h : FlushLeft cs) : trim cs = trimRight cs := by
  cases cs with
  | nil => rfl
  | cons c cs =>
    have hc : ¬ isSpace c = true := by simp [h c rfl]
    rw [trim, List.dropWhile_cons_of_neg hc]

theorem trimRight_eq_self_iff : trimRight cs = cs ↔ FlushRight cs := by
  show cs.rdropWhile isSpace = cs ↔ _
  rw [List.rdropWhile_eq_self_iff]
  cases cs using List.reverseRecOn <;> simp [FlushRight]

theorem flushRight_trimRight (cs : List Char) : FlushRight (trimRight cs) := by
  rw [← trimRight_eq_self_iff]
  exact List.rdropWhile_idempotent isSpace cs

theorem FlushRight.of_suffix (h : FlushRight cs) (hsuffix : after <:+ cs) : FlushRight after := by
  obtain ⟨before, rfl⟩ := hsuffix
  intro c hc
  exact h c (List.mem_getLast?_append_of_mem_getLast? hc)

theorem trimRight_cons (h : isSpace c = false) : trimRight (c :: cs) = c :: trimRight cs := by
  have hc : ¬ isSpace c = true := by simp [h]
  unfold trimRight
  rw [List.reverse_cons, List.dropWhile_append]
  split
  · next hnil => rw [List.isEmpty_iff.mp hnil, List.dropWhile_cons_of_neg hc]; rfl
  · rw [List.reverse_append]; rfl

theorem trim_append_left (h : ∀ c ∈ before, isSpace c = true) : trim (before ++ cs) = trim cs := by
  rw [trim, List.dropWhile_append_of_pos h, trim]

theorem trimRight_append_right (h : ∀ c ∈ after, isSpace c = true) :
    trimRight (cs ++ after) = trimRight cs := by
  have hreverse : ∀ c ∈ after.reverse, isSpace c = true := fun c hc => h c (List.mem_reverse.mp hc)
  rw [trimRight, List.reverse_append, List.dropWhile_append_of_pos hreverse, trimRight]

theorem trim_append_right (h : ∀ c ∈ after, isSpace c = true) : trim (cs ++ after) = trim cs := by
  unfold trim
  rw [List.dropWhile_append]
  split
  · next hnil => rw [List.isEmpty_iff.mp hnil, dropWhile_isSpace_eq_nil_iff.mpr h]
  · exact trimRight_append_right h

end Text

open Text (FlushLeft FlushRight trim trimRight isSpace isBlank)

namespace Color

/-! ### The two scans -/

variable {cs : List Char} {digits text : String}

theorem hexDigits_numberSign_cons (cs : List Char) :
    hexDigits ('#' :: cs) = (trimRight cs).dropWhile (· == '#') := by
  have hsign : isSpace '#' = false := rfl
  rw [hexDigits, (FlushLeft.cons hsign cs).trim_eq, Text.trimRight_cons hsign,
    List.dropWhile_cons_of_pos rfl]

/-- A further number sign in front is dropped, unless there is white space between it and the rest:
this would have been trimmed without the number sign. -/
theorem hexDigits_cons_of_flushLeft (h : FlushLeft cs) : hexDigits ('#' :: cs) = hexDigits cs := by
  rw [hexDigits_numberSign_cons, hexDigits, h.trim_eq]

theorem hexDigits_replicate_append (h : FlushLeft cs) (k : Nat) :
    hexDigits (List.replicate k '#' ++ cs) = hexDigits cs := by
  induction k with
  | zero => rfl
  | succ k ih =>
    have hflush : FlushLeft (List.replicate k '#' ++ cs) := by
      cases k with
      | zero => exact h
      | succ k => exact FlushLeft.cons rfl _
    rw [List.replicate_succ, List.cons_append, hexDigits_cons_of_flushLeft hflush, ih]

theorem hexDigits_between {before after : List Char} (hbefore : ∀ c ∈ before, isSpace c = true)
    (hafter : ∀ c ∈ after, isSpace c = true) :
    hexDigits (before ++ cs ++ after) = hexDigits cs := by
  rw [hexDigits, Text.trim_append_right hafter, Text.trim_append_left hbefore, hexDigits]

/-! ### Normal forms -/

/-- What can stand after the number sign of a color: a text that is not empty, does not begin with
another number sign and does not end with white space. -/
structure HexRest (cs : List Char) : Prop where
  ne_nil : cs ≠ []
  head?_ne : cs.head? ≠ some '#'
  flushRight : FlushRight cs

/-- One number sign and what can stand after it. -/
def HexNormal (text : String) : Prop := ∃ cs, HexRest cs ∧ text.toList = '#' :: cs

theorem hexRest_hexDigits (h : hexDigits cs ≠ []) : HexRest (hexDigits cs) where
  ne_nil := h
  head?_ne hhead := by
    have hsign := List.head?_dropWhile_not (· == '#') (trim cs)
    unfold hexDigits at hhead
    rw [hhead] at hsign
    cases hsign
  flushRight := (Text.flushRight_trimRight _).of_suffix (List.dropWhile_suffix _)

/-- The two scans leave a normal form as it is, but for its number sign. -/
theorem HexRest.hexDigits_eq (h : HexRest cs) : hexDigits ('#' :: cs) = cs := by
  rw [hexDigits_numberSign_cons, Text.trimRight_eq_self_iff.mpr h.flushRight]
  cases cs with
  | nil => rfl
  | cons c cs =>
    have hc : ¬ (c == '#') = true := by
      intro hc
      exact h.head?_ne (congrArg some (beq_iff_eq.mp hc))
    exact List.dropWhile_cons_of_neg hc

theorem css?_hex_eq_some_iff : (hex digits).css? = some text ↔
    hexDigits digits.toList ≠ [] ∧ text.toList = '#' :: hexDigits digits.toList := by
  unfold css?
  dsimp only
  split
  · next hnil => simp [hnil]
  · next hne =>
    rw [Option.some.injEq, ← String.toList_inj, String.toList_ofList]
    exact ⟨fun h => ⟨hne, h.symm⟩, fun h => h.2.symm⟩

theorem css?_hex_congr {digits' : String}
    (h : hexDigits digits.toList = hexDigits digits'.toList) :
    (hex digits).css? = (hex digits').css? := by
  apply Option.ext
  intro text
  rw [css?_hex_eq_some_iff, css?_hex_eq_some_iff, h]

theorem hexNormal_of_css? (h : (hex digits).css? = some text) : HexNormal text := by
  obtain ⟨hne, htext⟩ := css?_hex_eq_some_iff.mp h
  exact ⟨_, hexRest_hexDigits hne, htext⟩

theorem hexNormal_iff : HexNormal text ↔ (hex text).css? = some text := by
  constructor
  · rintro ⟨cs, hrest, htext⟩
    have hdigits : hexDigits text.toList = cs := by rw [htext, hrest.hexDigits_eq]
    rw [css?_hex_eq_some_iff, hdigits]
    exact ⟨hrest.ne_nil, htext⟩
  · exact hexNormal_of_css?

/-- White space around a text, and number signs in front of it, do not change the color. -/
theorem css?_hex_between {before after : String} (k : Nat) (h : FlushLeft digits.toList)
    (hbefore : isBlank before = true) (hafter : isBlank after = true) :
    (hex (before ++ String.ofList (List.replicate k '#') ++ digits ++ after)).css? =
      (hex digits).css? := by
  apply css?_hex_congr
  rw [isBlank, List.all_eq_true] at hbefore hafter
  calc hexDigits (before ++ String.ofList (List.replicate k '#') ++ digits ++ after).toList
      = hexDigits (before.toList ++ (List.replicate k '#' ++ digits.toList) ++ after.toList) := by
        simp only [String.toList_append, String.toList_ofList, List.append_assoc]
    _ = hexDigits (List.replicate k '#' ++ digits.toList) := hexDigits_between hbefore hafter
    _ = hexDigits digits.toList := hexDigits_replicate_append h k

/-- **Hexadecimal colors have one normal form.** A hexadecimal color has no text, or a normal one,
which as a hexadecimal color has itself as its text; and no other text has. A text that does not
begin with white space is the same color with any number of number signs in front of it and any
white space around all of that, be it a color with a text or without one. -/
theorem hex_normal_form :
    (∀ digits text : String, (hex digits).css? = some text →
      HexNormal text ∧ (hex text).css? = some text) ∧
    (∀ text : String, HexNormal text ↔ (hex text).css? = some text) ∧
    ∀ (digits before after : String) (k : Nat), FlushLeft digits.toList →
      isBlank before = true → isBlank after = true →
      (hex (before ++ String.ofList (List.replicate k '#') ++ digits ++ after)).css? =
        (hex digits).css? := by
  refine ⟨fun digits text h => ?_, fun text => hexNormal_iff,
    fun digits before after k => css?_hex_between k⟩
  have hnormal := hexNormal_of_css? h
  exact ⟨hnormal, hexNormal_iff.mp hnormal⟩

/-- A text with a number sign and white space inside, between white space and after three further
number signs, and the normal form of both. -/
theorem hex_normal_form_inner :
    (hex "\n ###f0 # 1\u00a0").css? = (hex "f0 # 1").css? ∧
    (hex "f0 # 1").css? = some "#f0 # 1" ∧ HexNormal "#f0 # 1" ∧
    (hex "#f0 # 1").css? = some "#f0 # 1" := by
  have hflush : FlushLeft "f0 # 1".toList := FlushLeft.cons rfl _
  have hcss : (hex "f0 # 1").css? = some "#f0 # 1" := by decide +kernel
  obtain ⟨hnormal, hfixed⟩ := hex_normal_form.1 _ _ hcss
  exact ⟨hex_normal_form.2.2 "f0 # 1" "\n " "\u00a0" 3 hflush (by decide) (by decide), hcss,
    hnormal, hfixed⟩

end Color

end Cascade
