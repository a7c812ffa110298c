import Mathlib.Data.List.Infix

/-! # Cuts

A text is cut at the first place where a separator stands (`List.dropInfix?`). The cut of a text
that was put together from two parts and a separator between them gives the two parts, if no
separator begins in the first one; and every text with a separator in it is put together so
(`exists_first_infix`). -/

namespace Cascade.Reading

theorem append_of_dropInfix? {sep l p s : List Char} (h : l.dropInfix? sep = some (p, s)) :
    l = p ++ sep ++ s := by
  obtain ⟨⟨i, hl, hi⟩, -⟩ := List.dropInfix?_eq_some_iff.mp h
  rw [hl, eq_of_beq hi]

theorem length_lt_of_dropInfix? {sep l p s : List Char} (hsep : sep ≠ [])
    (h : l.dropInfix? sep = some (p, s)) : s.length < l.length := by
  have hpos := List.length_pos_of_ne_nil hsep
  have hlen := congrArg List.length (append_of_dropInfix? h)
  simp only [List.length_append] at hlen
  omega

/-- **A text is cut where it was put together**, if the separator does not stand earlier. -/
theorem dropInfix?_append {sep p : List Char} (h : ¬ sep <:+: p ++ sep.dropLast) (s : List Char) :
    (p ++ sep ++ s).dropInfix? sep = some (p, s) := by
  rw [List.dropInfix?_eq_some_iff]
  refine ⟨⟨sep, rfl, beq_self_eq_true sep⟩, fun p' sep' s' hl hsep' => ?_⟩
  obtain rfl := eq_of_beq hsep'
  by_contra hlt
  have hsep : sep' ≠ [] := fun hnil => h (hnil ▸ List.nil_infix)
  have hpos := List.length_pos_of_ne_nil hsep
  -- the earlier separator ends before the last character of the one in the middle
  have hpre : p ++ sep'.dropLast <+: p ++ sep' ++ s :=
    ((List.prefix_append_right_inj p).mpr (List.dropLast_prefix sep')).trans
      (List.prefix_append _ s)
  have hpre' : p' ++ sep' <+: p ++ sep'.dropLast := by
    refine List.prefix_of_prefix_length_le ⟨s', hl.symm⟩ hpre ?_
    simp only [List.length_append, List.length_dropLast]
    omega
  exact h ((List.suffix_append p' sep').isInfix.trans hpre'.isInfix)

theorem dropInfix?_singleton {c : Char} {p : List Char} (h : c ∉ p) (s : List Char) :
    (p ++ c :: s).dropInfix? [c] = some (p, s) := by
  have hc : ¬ [c] <:+: p ++ [c].dropLast := by
    rwa [List.dropLast_singleton, List.append_nil, List.singleton_infix_iff]
  have hcut := dropInfix?_append hc s
  rwa [List.append_assoc, List.singleton_append] at hcut

theorem dropSuffix?_append (p s : List Char) : (p ++ s).dropSuffix? s = some p :=
  List.dropSuffix?_eq_some_iff.mpr ⟨s, rfl, beq_self_eq_true s⟩

/-- Where a separator stands in a text, there is a first place where one stands. -/
theorem exists_first_infix {sep cs : List Char} (hsep : sep ≠ []) (h : sep <:+: cs) :
    ∃ p s, cs = p ++ sep ++ s ∧ ¬ sep <:+: p ++ sep.dropLast := by
  induction cs with
  | nil => exact absurd (List.infix_nil.mp h) hsep
  | cons c cs ih =>
    by_cases hpre : sep <+: c :: cs
    · obtain ⟨s, hs⟩ := hpre
      refine ⟨[], s, hs.symm, fun hinf => ?_⟩
      have hlen := hinf.length_le
      have hpos := List.length_pos_of_ne_nil hsep
      simp only [List.nil_append, List.length_dropLast] at hlen
      omega
    · obtain ⟨p, s, rfl, hp⟩ := ih ((List.infix_cons_iff.mp h).resolve_left hpre)
      refine ⟨c :: p, s, rfl, fun hinf => ?_⟩
      rcases List.infix_cons_iff.mp hinf with hinf | hinf
      · have hlast : c :: (p ++ sep.dropLast) <+: c :: (p ++ sep ++ s) :=
          (((List.prefix_append_right_inj (c :: p)).mpr (List.dropLast_prefix sep)).trans
            (List.prefix_append _ s))
        exact hpre (hinf.trans hlast)
      · exact hp hinf

end Cascade.Reading
