import Cascade.Identifier
import Cascade.Proofs.Reading.Cut

/-! # Gaps

A gap is white space and comments. It is closed, if all of its comments are, or the last one of them
is open and reaches to the end of the text. Skipping the gap at the beginning of a text skips closed
gaps and all that follows an open one, and nothing else (`exists_gap`). So more text after a closed
gap is left alone (`Gap.skipGap_append`), and the beginning of more text after an open one is taken
for a part of its comment (`OpenGap.length_skipGap_append_lt`). -/

namespace Cascade.Identifier

/-- White space and comments, every one of which is closed. -/
inductive Gap : List Char → Prop where
  | nil : Gap []
  | separator {c : Char} {cs : List Char} (hc : isSeparator c = true) (h : Gap cs) : Gap (c :: cs)
  /-- A comment ends at the first place where it can. -/
  | comment {body cs : List Char} (hbody : ¬ ['*', '/'] <:+: body ++ ['*']) (h : Gap cs) :
      Gap ('/' :: '*' :: (body ++ '*' :: '/' :: cs))

/-- A gap and then a comment that only the end of the text closes. -/
inductive OpenGap : List Char → Prop where
  | comment {gap body : List Char} (h : Gap gap) (hbody : ¬ ['*', '/'] <:+: body) :
      OpenGap (gap ++ '/' :: '*' :: body)

/-! ### Gaps in a row -/

theorem comment_append (body gap cs : List Char) :
    '/' :: '*' :: (body ++ '*' :: '/' :: gap) ++ cs =
      '/' :: '*' :: (body ++ '*' :: '/' :: (gap ++ cs)) := by
  simp

theorem Gap.append {gap cs : List Char} (h : Gap gap) (h' : Gap cs) : Gap (gap ++ cs) := by
  induction h with
  | nil => exact h'
  | separator hc _ ih => exact ih.separator hc
  | comment hbody _ ih =>
    rw [comment_append]
    exact ih.comment hbody

theorem OpenGap.append {gap cs : List Char} (h : Gap gap) (h' : OpenGap cs) :
    OpenGap (gap ++ cs) := by
  obtain @⟨gap', body, hgap', hbody⟩ := h'
  rw [← List.append_assoc]
  exact .comment (h.append hgap') hbody

/-! ### Gaps are skipped -/

theorem skipGap_true_append {body cs : List Char} (h : ¬ ['*', '/'] <:+: body ++ cs.take 1) :
    skipGap true (body ++ cs) = skipGap true cs := by
  induction body with
  | nil => rfl
  | cons c body ih =>
    rw [List.cons_append, List.infix_cons_iff, not_or] at h
    rw [List.cons_append, skipGap, ih h.2]
    -- the comment does not end here, so the character is in it
    rintro ds rfl hds
    refine h.1 ((List.prefix_cons_inj '*').mpr ?_)
    rcases body with _ | ⟨d, body⟩
    · rw [List.nil_append] at hds
      simp [hds]
    · rw [List.cons_append, List.cons.injEq] at hds
      simp [hds.1]

theorem skipGap_comment {body : List Char} (h : ¬ ['*', '/'] <:+: body ++ ['*'])
    (cs : List Char) : skipGap false ('/' :: '*' :: (body ++ '*' :: '/' :: cs)) =
      skipGap false cs := by
  rw [skipGap, skipGap_true_append h, skipGap]

theorem skipGap_separator {c : Char} (hc : isSeparator c = true) (cs : List Char) :
    skipGap false (c :: cs) = skipGap false cs := by
  rw [skipGap, if_pos hc]
  rintro ds rfl -
  exact absurd hc (by decide)

theorem Gap.skipGap_append {gap : List Char} (h : Gap gap) (cs : List Char) :
    skipGap false (gap ++ cs) = skipGap false cs := by
  induction h with
  | nil => rfl
  | separator hc _ ih => rw [List.cons_append, skipGap_separator hc, ih]
  | comment hbody _ ih =>
    rw [comment_append, skipGap_comment hbody, ih]

theorem not_infix_concat {body : List Char} {c : Char} (h : ¬ ['*', '/'] <:+: body) (hc : c ≠ '/') :
    ¬ ['*', '/'] <:+: body ++ [c] := by
  rw [List.infix_concat_iff, not_or]
  refine ⟨fun hsuffix => ?_, h⟩
  rcases List.suffix_concat_iff.mp hsuffix with hnil | ⟨t, ht, -⟩
  · cases hnil
  · have hlast := congrArg List.getLast? ht
    simp [hc.symm] at hlast

theorem OpenGap.skipGap_eq_nil {cs : List Char} (h : OpenGap cs) : skipGap false cs = [] := by
  obtain @⟨gap, body, hgap, hbody⟩ := h
  have hskip : skipGap true (body ++ []) = skipGap true [] :=
    skipGap_true_append (by simpa using hbody)
  rw [hgap.skipGap_append, skipGap, ← List.append_nil body, hskip, skipGap]

theorem length_skipGap_le (inside : Bool) (cs : List Char) :
    (skipGap inside cs).length ≤ cs.length := by
  fun_induction skipGap inside cs with
  | case1 | case6 => exact Nat.le_refl _
  | case2 cs ih | case4 cs ih =>
    simp only [List.length_cons]
    omega
  | case3 c cs _ ih | case5 c cs _ _ ih => exact ih.trans (Nat.le_succ _)

theorem length_skipGap_true_lt (c : Char) (cs : List Char) :
    (skipGap true (c :: cs)).length < (c :: cs).length := by
  by_cases hend : ∃ ds, c = '*' ∧ cs = '/' :: ds
  · obtain ⟨ds, rfl, rfl⟩ := hend
    have hle := length_skipGap_le false ds
    rw [skipGap]
    simp only [List.length_cons]
    omega
  · rw [skipGap]
    · exact Nat.lt_succ_of_le (length_skipGap_le true cs)
    · rintro ds rfl rfl
      exact hend ⟨ds, rfl, rfl⟩

theorem OpenGap.length_skipGap_append_lt {gap : List Char} (h : OpenGap gap) {c : Char}
    (hc : c ≠ '/') (cs : List Char) :
    (skipGap false (gap ++ c :: cs)).length < (c :: cs).length := by
  obtain @⟨gap, body, hgap, hbody⟩ := h
  have hskip : skipGap true (body ++ c :: cs) = skipGap true (c :: cs) :=
    skipGap_true_append (not_infix_concat hbody hc)
  rw [List.append_assoc, hgap.skipGap_append, List.cons_append, List.cons_append, skipGap, hskip]
  exact length_skipGap_true_lt c cs

/-! ### What is skipped is a gap -/

/-- **A text is a gap and what is left of it when the gap is skipped**, or its last comment is not
closed. -/
theorem exists_gap (cs : List Char) :
    (∃ gap, Gap gap ∧ cs = gap ++ skipGap false cs) ∨ OpenGap cs := by
  -- the recursion goes on after a separator or after a whole comment
  induction hn : cs.length using Nat.strong_induction_on generalizing cs with
  | h n ih =>
    subst hn
    rcases cs with _ | ⟨c, cs⟩
    · exact .inl ⟨[], .nil, rfl⟩
    by_cases hc : isSeparator c = true
    · rw [skipGap_separator hc]
      rcases ih cs.length (Nat.lt_succ_self _) cs rfl with ⟨gap, hgap, hcs⟩ | hopen
      · exact .inl ⟨c :: gap, hgap.separator hc, congrArg (c :: ·) hcs⟩
      · exact .inr (.append (.separator hc .nil) hopen)
    by_cases hstart : ∃ ds, c = '/' ∧ cs = '*' :: ds
    · obtain ⟨ds, rfl, rfl⟩ := hstart
      by_cases hbody : ['*', '/'] <:+: ds
      · obtain ⟨body, rest, rfl, hend⟩ :=
          Reading.exists_first_infix (List.cons_ne_nil _ _) hbody
        rw [List.append_assoc, List.cons_append, List.singleton_append, skipGap_comment hend]
        rcases ih rest.length (by simp; omega) rest rfl with ⟨gap, hgap, hrest⟩ | hopen
        · refine .inl ⟨_, hgap.comment hend, ?_⟩
          simpa using hrest
        · have hrest := OpenGap.append (.comment hend .nil) hopen
          exact .inr (by simpa using hrest)
      · exact .inr (.comment .nil hbody)
    · refine .inl ⟨[], .nil, ?_⟩
      rw [skipGap, if_neg hc, List.nil_append]
      rintro ds rfl rfl
      exact hstart ⟨ds, rfl, rfl⟩

/-- **The texts that are skipped whole are the gaps**, closed or open. -/
theorem skipGap_eq_nil_iff {cs : List Char} : skipGap false cs = [] ↔ Gap cs ∨ OpenGap cs := by
  constructor
  · intro h
    rcases exists_gap cs with ⟨gap, hgap, hcs⟩ | hopen
    · rw [h, List.append_nil] at hcs
      exact .inl (hcs ▸ hgap)
    · exact .inr hopen
  · rintro (hgap | hopen)
    · have hskip := hgap.skipGap_append []
      rwa [List.append_nil] at hskip
    · exact hopen.skipGap_eq_nil

end Cascade.Identifier
