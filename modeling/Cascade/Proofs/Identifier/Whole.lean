import Cascade.Proofs.Identifier.Valid

/-! # Names that are one identifier and nothing else

A valid name should be one identifier from its first character to its last one. The check skips
comments around the identifier, so it lets names with comments pass (`not_valid_whole`). This is the
only way in which a valid name can be more than its identifier: without a comment it begins and ends
with it (`valid_whole_iff_no_comment`). In the identifier itself there is no comment, and no white
space or punctuation outside of an escape. -/

namespace Cascade.Identifier

/-! ### Comments -/

/-- The characters that a comment begins with. -/
abbrev commentStart : List Char := ['/', '*']

theorem infix_append_of_forall_ne {cs ds : List Char} (h : ∀ c ∈ ds, c ≠ '/') :
    commentStart <:+: ds ++ cs ↔ commentStart <:+: cs := by
  induction ds with
  | nil => rfl
  | cons c ds ih =>
    obtain ⟨hc, hds⟩ := List.forall_mem_cons.mp h
    have hprefix : ¬ commentStart <+: c :: (ds ++ cs) := by
      intro hp
      exact hc (List.cons_prefix_cons.mp hp).1.symm
    rw [List.cons_append, List.infix_cons_iff, ih hds]
    exact or_iff_right hprefix

section Name
variable {after cs : List Char}

theorem Name.head?_ne_star (h : Name after cs) : cs.head? ≠ some '*' := by
  cases h with
  | nil => nofun
  | cons hp =>
    cases hp with
    | char hc =>
      intro heq
      obtain rfl := Option.some.inj heq
      exact absurd hc (by decide)
    | escape he =>
      obtain ⟨es, rfl⟩ := he.exists_cons
      exact nofun

theorem ne_slash_of_isHex {c : Char} (h : isHex c = true) : c ≠ '/' := by
  rintro rfl
  exact absurd h (by decide)

theorem ne_slash_of_mem_escapeSpace {space : List Char} (h : EscapeSpace space) :
    ∀ c ∈ space, c ≠ '/' := by
  cases h with
  | none => exact nofun
  | one hc =>
    rintro d hd rfl
    rw [← List.mem_singleton.mp hd] at hc
    cases hc
  | pair => simp

/-- **There is no comment in a name.** -/
theorem Name.no_comment (h : Name after cs) : ¬ commentStart <:+: cs := by
  induction h with
  | nil => decide
  | @cons piece cs hp h ih =>
    cases hp with
    | @char c hc =>
      have hslash : ∀ d ∈ [c], d ≠ '/' := by
        rintro d hd rfl
        rw [← List.mem_singleton.mp hd] at hc
        cases hc
      rwa [infix_append_of_forall_ne hslash]
    | escape he =>
      cases he with
      | @hex digits space _ _ hdigits hspace =>
        have hslash : ∀ d ∈ '\\' :: (digits ++ space), d ≠ '/' := by
          refine List.forall_mem_cons.mpr ⟨by decide, List.forall_mem_append.mpr ⟨?_, ?_⟩⟩
          · exact fun d hd => ne_slash_of_isHex (hdigits d hd)
          · exact ne_slash_of_mem_escapeSpace hspace
        rwa [infix_append_of_forall_ne hslash]
      | @other c =>
        -- the escaped character may be a slash, but then no star comes after it
        have hslash : ¬ commentStart <+: c :: cs := by
          intro hprefix
          obtain ⟨-, hstar⟩ := List.cons_prefix_cons.mp hprefix
          obtain ⟨rest, rfl⟩ := hstar
          exact h.head?_ne_star rfl
        have hone : ∀ d ∈ ['\\'], d ≠ '/' := List.forall_mem_singleton.mpr (by decide)
        change ¬ commentStart <:+: ['\\'] ++ c :: cs
        rw [infix_append_of_forall_ne hone, List.infix_cons_iff, not_or]
        exact ⟨hslash, ih⟩
      | atEnd =>
        have hone : ∀ d ∈ ['\\'], d ≠ '/' := List.forall_mem_singleton.mpr (by decide)
        rwa [infix_append_of_forall_ne hone]

/-- White space and punctuation of declarations and rules. -/
def punctuation : List Char := [' ', '\t', '\n', '\x0c', '\r', ':', ';', '{', '}']

theorem not_mem_punctuation_of_isNameChar {c : Char} (h : isNameChar c = true) :
    c ∉ punctuation := by
  intro hmem
  have hall : punctuation.all (fun d => !isNameChar d) = true := rfl
  have hnot := List.all_eq_true.mp hall c hmem
  rw [h] at hnot
  cases hnot

theorem Name.exists_pieces (h : Name after cs) : ∃ pieces : List (List Char), cs = pieces.flatten ∧
    ∀ left piece right, pieces = left ++ piece :: right → Piece (right.flatten ++ after) piece := by
  induction h with
  | nil => exact ⟨[], rfl, fun left piece right heq => by simp at heq⟩
  | @cons piece cs hp _ ih =>
    obtain ⟨pieces, rfl, hpieces⟩ := ih
    refine ⟨piece :: pieces, rfl, fun left piece' right heq => ?_⟩
    rcases left with _ | ⟨first, left⟩
    · obtain ⟨rfl, rfl⟩ := List.cons.inj heq
      exact hp
    · exact hpieces left piece' right (List.cons.inj heq).2

end Name

/-! ### Gaps without comments -/

theorem Gap.isSeparator_of_no_comment {gap : List Char} (h : Gap gap)
    (hno : ¬ commentStart <:+: gap) : ∀ c ∈ gap, isSeparator c = true := by
  induction h with
  | nil => exact nofun
  | separator hc _ ih =>
    rw [List.infix_cons_iff, not_or] at hno
    exact List.forall_mem_cons.mpr ⟨hc, ih hno.2⟩
  | comment => exact absurd (List.prefix_append commentStart _).isInfix hno

theorem OpenGap.comment_infix {gap : List Char} (h : OpenGap gap) : commentStart <:+: gap := by
  obtain @⟨gap, body, -, -⟩ := h
  exact ⟨gap, body, by simp⟩

theorem isSpace_of_isSeparator {c : Char} (h : isSeparator c = true) : Text.isSpace c = true := by
  rw [isSeparator_iff] at h
  simp only [Text.isSpace, Text.spaceRanges, List.any_cons, List.any_nil, Bool.or_eq_true,
    Bool.and_eq_true, decide_eq_true_eq]
  omega

/-- The gaps around an identifier are empty exactly if there is no comment in them, where no white
space stands at either end. -/
theorem gaps_eq_nil_iff {before name after : List Char} (hne : before ++ name ++ after ≠ [])
    (hhead : Text.isSpace ((before ++ name ++ after).head hne) = false)
    (hlast : Text.isSpace ((before ++ name ++ after).getLast hne) = false)
    (hbefore : Gap before) (hname : Token after name) (hafter : Gap after ∨ OpenGap after) :
    before = [] ∧ after = [] ↔ ¬ commentStart <:+: before ++ name ++ after := by
  constructor
  · rintro ⟨rfl, rfl⟩
    rw [List.nil_append, List.append_nil]
    exact hname.name.no_comment
  · intro hno
    have hbefore' : ¬ commentStart <:+: before := fun hcomment =>
      hno (hcomment.trans (by rw [List.append_assoc]; exact (List.prefix_append _ _).isInfix))
    have hafter' : ¬ commentStart <:+: after := fun hcomment =>
      hno (hcomment.trans (List.suffix_append _ _).isInfix)
    constructor
    · rcases before with _ | ⟨c, before⟩
      · rfl
      have hspace := isSpace_of_isSeparator
        (hbefore.isSeparator_of_no_comment hbefore' c List.mem_cons_self)
      exact absurd (hspace.symm.trans hhead) (by decide)
    · rcases hafter with hgap | hopen
      · by_contra hnil
        have hmem := hgap.isSeparator_of_no_comment hafter' _ (List.getLast_mem hnil)
        rw [List.getLast_append_of_ne_nil _ hnil, isSpace_of_isSeparator hmem] at hlast
        cases hlast
      · exact absurd hopen.comment_infix hafter'

/-! ### Whole names -/

/-- **A valid name is one identifier and nothing else exactly if there is no comment in it.** In the
identifier there is none, and white space or punctuation only as a part of an escape. -/
theorem valid_whole_iff_no_comment {s : String} (h : isValid s = true) :
    ∃ before name after, s.toList = before ++ name ++ after ∧
      read? s.toList = some (name, after) ∧ Token after name ∧
      Gap before ∧ (Gap after ∨ OpenGap after) ∧
      (before = [] ∧ after = [] ↔ ¬ commentStart <:+: s.toList) ∧
      ¬ commentStart <:+: name ∧
      ∃ pieces : List (List Char), name = pieces.flatten ∧
        ∀ left piece right, pieces = left ++ piece :: right →
          Escape (right.flatten ++ after) piece ∨ ∃ c, piece = [c] ∧ c ∉ punctuation := by
  obtain ⟨hne, htrim, name, after, hread, hskip⟩ := isValid_iff_exists_read?.mp h
  obtain ⟨before, hs, hbefore, hname⟩ := exists_gap_of_read? hread hskip
  obtain ⟨hhead, hlast⟩ := (Text.trim_eq_self_iff hne).mp htrim
  have hafter := skipGap_eq_nil_iff.mp hskip
  obtain ⟨pieces, hflatten, hpieces⟩ := hname.name.exists_pieces
  refine ⟨before, name, after, hs, hread, hname, hbefore, hafter, ?_, hname.name.no_comment,
    pieces, hflatten, fun left piece right heq => ?_⟩
  · simp only [hs] at hne hhead hlast ⊢
    exact gaps_eq_nil_iff hne hhead hlast hbefore hname hafter
  · cases hpieces left piece right heq with
    | char hc => exact .inr ⟨_, rfl, not_mem_punctuation_of_isNameChar hc⟩
    | escape he => exact .inl he

/-- White space, punctuation and a slash, all of them escaped. -/
theorem valid_whole_iff_no_comment_escapes :
    isValid "-\\3a \\;\\/x\\ y" = true ∧
      read? "-\\3a \\;\\/x\\ y".toList = some ("-\\3a \\;\\/x\\ y".toList, []) ∧
      Token [] "-\\3a \\;\\/x\\ y".toList := by
  have hvalid : isValid "-\\3a \\;\\/x\\ y" = true := rfl
  obtain ⟨before, name, after, hs, hread, hname, -, -, hwhole, -, -⟩ :=
    valid_whole_iff_no_comment hvalid
  obtain ⟨rfl, rfl⟩ := hwhole.mpr (by decide)
  rw [List.nil_append, List.append_nil] at hs
  subst hs
  exact ⟨hvalid, hread, hname⟩

/-- A valid name with a comment after its identifier is not the whole of it. -/
theorem not_valid_whole :
    ¬ ∀ s : String, isValid s = true → read? s.toList = some (s.toList, []) := by
  intro h
  have hread := h "a/**/" rfl
  have hpart : read? "a/**/".toList = some (['a'], "/**/".toList) := rfl
  cases hpart.symm.trans hread

end Cascade.Identifier
