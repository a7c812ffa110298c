import Cascade.Proofs.Identifier.Colon

/-! # The grammar of identifiers

A name is a row of pieces: characters, and escapes of one or more characters. An identifier is a name
that begins in one of a few ways (`Token`). The grammar says this of a text and of the text after
it, since only the end of all text lets an escape be a backslash alone.

A name that stands before a gap is an identifier exactly if the scanner lets one begin there
(`Token.startsIdentifier_append`, `Name.token`). -/

namespace Cascade.Identifier

/-! ### Pieces and names -/

/-- The white space that a hexadecimal escape takes along: at most one character, where a carriage
return and a line feed are one. -/
inductive EscapeSpace : List Char → Prop where
  | none : EscapeSpace []
  | one {c : Char} (hc : isSeparator c = true) : EscapeSpace [c]
  | pair : EscapeSpace ['\r', '\n']

/-- An escape before some text. -/
inductive Escape (after : List Char) : List Char → Prop where
  /-- One to six hexadecimal digits. -/
  | hex {digits space : List Char} (hne : digits ≠ []) (hlength : digits.length ≤ 6)
      (hdigits : ∀ c ∈ digits, isHex c = true) (hspace : EscapeSpace space) :
      Escape after ('\\' :: (digits ++ space))
  /-- One other character that does not end a line. -/
  | other {c : Char} (hhex : isHex c = false) (hline : isNewline c = false) :
      Escape after ['\\', c]
  /-- Nothing, at the end of the text. -/
  | atEnd (h : after = []) : Escape after ['\\']

/-- A piece of a name before some text. -/
inductive Piece (after : List Char) : List Char → Prop where
  | char {c : Char} (hc : isNameChar c = true) : Piece after [c]
  | escape {cs : List Char} (h : Escape after cs) : Piece after cs

/-- Pieces in a row before some text. -/
inductive Name (after : List Char) : List Char → Prop where
  | nil : Name after []
  | cons {piece cs : List Char} (hp : Piece (cs ++ after) piece) (h : Name after cs) :
      Name after (piece ++ cs)

/-- A piece that a name may begin with. -/
inductive FirstPiece (after : List Char) : List Char → Prop where
  | char {c : Char} (hc : isNameStart c = true) : FirstPiece after [c]
  | escape {cs : List Char} (h : Escape after cs) : FirstPiece after cs

/-- An identifier before some text. -/
inductive Token (after : List Char) : List Char → Prop where
  | plain {piece cs : List Char} (hp : FirstPiece (cs ++ after) piece) (h : Name after cs) :
      Token after (piece ++ cs)
  | hyphen {piece cs : List Char} (hp : FirstPiece (cs ++ after) piece) (h : Name after cs) :
      Token after ('-' :: (piece ++ cs))
  | hyphens {cs : List Char} (h : Name after cs) : Token after ('-' :: '-' :: cs)

theorem FirstPiece.piece {after piece : List Char} (h : FirstPiece after piece) :
    Piece after piece := by
  cases h with
  | char hc => exact .char (by simp [isNameChar, hc])
  | escape h => exact .escape h

theorem Token.name {after cs : List Char} (h : Token after cs) : Name after cs := by
  cases h with
  | plain hp h => exact .cons hp.piece h
  | hyphen hp h => exact .cons (.char rfl) (.cons hp.piece h)
  | hyphens h => exact .cons (.char rfl) (.cons (.char rfl) h)

/-! ### Classes of characters

The classes by code points, so that how they relate is arithmetic. -/

section Classes
variable {c : Char}

theorem isNewline_iff : isNewline c = true ↔ c.toNat = 10 ∨ c.toNat = 12 ∨ c.toNat = 13 := by
  simp [isNewline, ← Char.toNat_inj, or_assoc]

theorem isSeparator_iff : isSeparator c = true ↔
    c.toNat = 32 ∨ c.toNat = 9 ∨ c.toNat = 10 ∨ c.toNat = 12 ∨ c.toNat = 13 := by
  simp [isSeparator, isNewline, ← Char.toNat_inj, or_assoc]

theorem isHex_iff : isHex c = true ↔ (48 ≤ c.toNat ∧ c.toNat ≤ 57) ∨
    (97 ≤ c.toNat ∧ c.toNat ≤ 102) ∨ (65 ≤ c.toNat ∧ c.toNat ≤ 70) := by
  simp [isHex, Char.isDigit, Char.le_def, UInt32.le_iff_toNat_le, or_assoc]

theorem isAlpha_iff : c.isAlpha = true ↔
    (65 ≤ c.toNat ∧ c.toNat ≤ 90) ∨ (97 ≤ c.toNat ∧ c.toNat ≤ 122) := by
  have hupper : c.isUpper = true ↔ 65 ≤ c.toNat ∧ c.toNat ≤ 90 := decide_eq_true_iff
  have hlower : c.isLower = true ↔ 97 ≤ c.toNat ∧ c.toNat ≤ 122 :=
    Bool.and_eq_true_iff.trans (and_congr decide_eq_true_iff decide_eq_true_iff)
  exact Bool.or_eq_true_iff.trans (or_congr hupper hlower)

theorem isNameStart_iff : isNameStart c = true ↔ (65 ≤ c.toNat ∧ c.toNat ≤ 90) ∨
    (97 ≤ c.toNat ∧ c.toNat ≤ 122) ∨ c.toNat = 95 ∨ c.toNat = 0 ∨ 128 ≤ c.toNat := by
  simp [isNameStart, isAlpha_iff, ← Char.toNat_inj, or_assoc]

theorem isNameChar_iff : isNameChar c = true ↔ (65 ≤ c.toNat ∧ c.toNat ≤ 90) ∨
    (97 ≤ c.toNat ∧ c.toNat ≤ 122) ∨ c.toNat = 95 ∨ c.toNat = 0 ∨ 128 ≤ c.toNat ∨
    (48 ≤ c.toNat ∧ c.toNat ≤ 57) ∨ c.toNat = 45 := by
  simp [isNameChar, isNameStart_iff, Char.isDigit, UInt32.le_iff_toNat_le, ← Char.toNat_inj,
    or_assoc]

theorem not_isNameChar_of_isSeparator (h : isSeparator c = true) : isNameChar c = false := by
  rw [isSeparator_iff] at h
  rw [← Bool.not_eq_true, isNameChar_iff]
  omega

theorem isNameChar_of_isHex (h : isHex c = true) : isNameChar c = true := by
  rw [isHex_iff] at h
  rw [isNameChar_iff]
  omega

theorem not_isSeparator_of_isHex (h : isHex c = true) : isSeparator c = false := by
  rw [isHex_iff] at h
  rw [← Bool.not_eq_true, isSeparator_iff]
  omega

theorem not_isNewline_of_isHex (h : isHex c = true) : isNewline c = false := by
  rw [isHex_iff] at h
  rw [← Bool.not_eq_true, isNewline_iff]
  omega

theorem ne_backslash_of_isNameChar (h : isNameChar c = true) : c ≠ '\\' := by
  rintro rfl
  exact absurd h (by decide)

end Classes

/-! ### How an identifier begins -/

section Begin
variable {after cs piece : List Char}

theorem startsIdentifier_hyphen_iff :
    startsIdentifier ('-' :: cs) = true ↔ startsName cs = true ∨ ∃ ds, cs = '-' :: ds := by
  constructor
  · intro h
    unfold startsIdentifier at h
    split at h
    · next ds heq => exact .inr ⟨ds, (List.cons.inj heq).2⟩
    · next ds _ heq => exact .inl ((List.cons.inj heq).2 ▸ h)
    · next hne => exact absurd rfl (hne cs)
  · rintro (h | ⟨ds, rfl⟩)
    · exact startsIdentifier_hyphen_of_startsName h
    · rfl

theorem startsIdentifier_of_ne {c : Char} (hc : c ≠ '-') :
    startsIdentifier (c :: cs) = startsName (c :: cs) := by
  unfold startsIdentifier
  split
  · next heq => exact absurd (List.cons.inj heq).1 hc
  · next heq => exact absurd (List.cons.inj heq).1 hc
  · rfl

theorem Escape.startsName_append (h : Escape cs piece) : startsName (piece ++ cs) = true := by
  cases h with
  | hex hne _ hdigits _ =>
    obtain ⟨c, digits, rfl⟩ := List.exists_cons_of_ne_nil hne
    have hline := not_isNewline_of_isHex (hdigits c List.mem_cons_self)
    simp [startsName, opensEscape, hline]
  | other _ hline => simp [startsName, opensEscape, hline]
  | atEnd hend =>
    rw [hend]
    rfl

theorem FirstPiece.startsName_append (h : FirstPiece cs piece) :
    startsName (piece ++ cs) = true := by
  cases h with
  | @char c hc =>
    have hslash : c ≠ '\\' := ne_backslash_of_isNameChar (by simp [isNameChar, hc])
    rw [List.singleton_append, startsName_cons_of_ne hslash, hc]
  | escape he => exact he.startsName_append

theorem firstPiece_of_startsName (hp : Piece cs piece) (h : startsName (piece ++ cs) = true) :
    FirstPiece cs piece := by
  cases hp with
  | @char c hc =>
    rw [List.singleton_append, startsName_cons_of_ne (ne_backslash_of_isNameChar hc)] at h
    exact .char h
  | escape he => exact .escape he

theorem Token.startsIdentifier_append (h : Token after cs) :
    startsIdentifier (cs ++ after) = true := by
  cases h with
  | plain hp =>
    rw [List.append_assoc]
    exact startsIdentifier_of_startsName hp.startsName_append
  | hyphen hp =>
    rw [List.cons_append, List.append_assoc]
    exact startsIdentifier_hyphen_of_startsName hp.startsName_append
  | hyphens => rfl

theorem not_startsIdentifier_of_skipGap (h : skipGap false cs = []) :
    startsIdentifier cs = false := by
  by_contra hstart
  have hstart : startsIdentifier cs = true := eq_true_of_ne_false hstart
  rw [skipGap_of_startsIdentifier hstart] at h
  subst h
  cases hstart

theorem Escape.exists_cons (h : Escape after piece) : ∃ cs, piece = '\\' :: cs := by
  cases h with
  | hex => exact ⟨_, rfl⟩
  | other => exact ⟨_, rfl⟩
  | atEnd => exact ⟨[], rfl⟩

/-- What comes after the hyphen at the beginning of an identifier. -/
theorem Name.token_hyphen (h : Name after cs) (hafter : skipGap false after = [])
    (hstart : startsIdentifier ('-' :: (cs ++ after)) = true) : Token after ('-' :: cs) := by
  have hnot := not_startsIdentifier_of_skipGap hafter
  rcases startsIdentifier_hyphen_iff.mp hstart with hname | ⟨ds, hds⟩
  · cases h with
    | nil => exact absurd (startsIdentifier_of_startsName hname) (Bool.not_eq_true _ ▸ hnot)
    | cons hp h =>
      rw [List.append_assoc] at hname
      exact .hyphen (firstPiece_of_startsName hp hname) h
  · cases h with
    | nil =>
      obtain rfl : after = '-' :: ds := hds
      cases hafter
    | cons hp h =>
      cases hp with
      | char =>
        obtain rfl := (List.cons.inj hds).1
        exact .hyphens h
      | escape he =>
        obtain ⟨es, rfl⟩ := he.exists_cons
        cases (List.cons.inj hds).1

/-- A name that begins as identifiers do is an identifier. -/
theorem Name.token (h : Name after cs) (hafter : skipGap false after = [])
    (hstart : startsIdentifier (cs ++ after) = true) : Token after cs := by
  cases h with
  | nil => exact absurd hstart (Bool.not_eq_true _ ▸ not_startsIdentifier_of_skipGap hafter)
  | @cons piece cs hp h =>
    have hplain (hne : startsIdentifier (piece ++ cs ++ after) = startsName (piece ++ cs ++ after)) :
        Token after (piece ++ cs) := by
      rw [hne, List.append_assoc] at hstart
      exact .plain (firstPiece_of_startsName hp hstart) h
    cases hp with
    | @char c hc =>
      by_cases hhyphen : c = '-'
      · subst hhyphen
        exact h.token_hyphen hafter hstart
      · exact hplain (startsIdentifier_of_ne hhyphen)
    | escape he =>
      obtain ⟨es, rfl⟩ := he.exists_cons
      exact hplain (startsIdentifier_of_ne (by decide))

end Begin

end Cascade.Identifier
