import Cascade.Proofs.Fault
import Cascade.Proofs.Identifier.Colon
import Cascade.Proofs.Reading.Compact
import Cascade.Proofs.Reading.Pretty

/-! # Names in the text of a sheet

Where names are checked, every declaration outside the slots is named by a valid name, and a colon
comes right after it in the text of the sheet, in either format (`Sheet.name_infix_of_compile`). The
check looks at the name alone. It lets names pass that end inside of an escape or of a comment, and
those are the ones that are read differently where they are written
(`Sheet.checked_name_before_colon`, `Sheet.not_checked_name_before_colon`). -/

namespace Cascade

/-! ### Declarations in texts -/

theorem Declaration.name_infix_declarationChars (d : Declaration) :
    d.name.toList ++ [':'] <:+: Compact.declarationChars d :=
  List.IsPrefix.isInfix ⟨d.value.toList ++ [';'], by simp [Compact.declarationChars]⟩

theorem Declaration.name_infix_declarationLine (d : Declaration) :
    d.name.toList ++ [':'] <:+: Pretty.declarationLine d :=
  ⟨[' ', ' '], ' ' :: (d.value.toList ++ [';']), by simp [Pretty.declarationLine]⟩

theorem Pretty.infix_unlines_of_mem {line : List Char} {lines : List (List Char)}
    (h : line ∈ lines) : line <:+: unlines lines :=
  (List.prefix_append line ['\n']).isInfix.trans
    (List.infix_of_mem_flatten (List.mem_map_of_mem h))

theorem Block.name_infix_render {b : Block} {d : Declaration} (hd : d ∈ b.declarations)
    (format : Format) : d.name.toList ++ [':'] <:+: (b.render format).toList := by
  cases format with
  | compact =>
    rw [Compact.toList_block_render]
    have hchars : Compact.declarationChars d <:+: b.declarations.flatMap Compact.declarationChars :=
      List.infix_of_mem_flatten (List.mem_map_of_mem hd)
    have hblock : b.declarations.flatMap Compact.declarationChars <:+: Compact.blockChars b :=
      ⟨b.selector.toList ++ ['{'], ['}'], by simp [Compact.blockChars]⟩
    exact d.name_infix_declarationChars.trans (hchars.trans hblock)
  | pretty =>
    rw [Pretty.toList_block_render, Pretty.blockLines_of_ne_nil (List.ne_nil_of_mem hd)]
    refine (d.name_infix_declarationLine).trans (Pretty.infix_unlines_of_mem ?_)
    simp only [List.mem_cons, List.mem_append, List.mem_map]
    exact .inr (.inl ⟨d, hd, rfl⟩)

theorem Format.render_infix_of_mem {format : Format} {b : Block} {blocks : List Block}
    (h : b ∈ blocks) : (b.render format).toList <:+: (format.render blocks).toList := by
  obtain ⟨bs, cs, rfl⟩ := List.append_of_mem h
  rw [render_append, render_cons]
  simp only [String.toList_append, List.append_assoc]
  exact ((List.prefix_append _ _).isInfix.trans (List.suffix_append _ _).isInfix).trans
    (List.suffix_append _ _).isInfix

theorem Rule.custom_subset_of_resolve {r : Rule} {b : Block} (h : r.resolve = .ok b) :
    r.custom ⊆ b.declarations := by
  obtain ⟨typed, -, hb⟩ := Outcome.bind_eq_ok_iff.mp h
  rw [← Except.ok.inj hb]
  exact List.subset_append_right _ _

namespace Sheet

variable {sheet : Sheet} {format : Format} {text : String} {r : Rule} {d : Declaration}

theorem isValid_of_compile (h : sheet.compile ⟨format, true⟩ = .ok text) (hr : r ∈ sheet.rules)
    (hd : d ∈ r.custom) : Identifier.isValid d.name = true := by
  obtain ⟨blocks, hblocks, -⟩ := compile_eq_ok_iff.mp h
  obtain ⟨i, hi⟩ := List.getElem?_of_mem hr
  obtain ⟨j, hj⟩ := List.getElem?_of_mem hd
  by_contra hn
  refine not_faulty_of_outcome_blocks hblocks ⟨i, r, hi, .custom j, .invalidName d.name, ?_⟩
  exact .custom rfl hj (eq_false_of_ne_true hn)

theorem name_infix_of_compile {options : Options} (h : sheet.compile options = .ok text)
    (hr : r ∈ sheet.rules) (hd : d ∈ r.custom) : d.name.toList ++ [':'] <:+: text.toList := by
  obtain ⟨blocks, hblocks, rfl⟩ := exists_resolve_of_compile h
  obtain ⟨b, hb, hrb⟩ := Outcome.exists_mem_of_mapM hblocks r hr
  have hdb : d ∈ b.declarations := Rule.custom_subset_of_resolve hrb hd
  exact (Block.name_infix_render hdb options.format).trans (Format.render_infix_of_mem hb)

/-- **A valid name ends at the colon after it exactly if nothing in it is left open**: no escape at
the end of the identifier, and no comment after it. Where names are checked, those outside the slots
are valid, and each is written with a colon right after it. -/
theorem checked_name_before_colon {s : String} (hs : Identifier.isValid s = true) :
    ∃ name rest, Identifier.read? s.toList = some (name, rest) ∧
      Identifier.token? s.toList = some (name, []) ∧
      (∀ t, Identifier.token? (s.toList ++ ':' :: t) = some (name, ':' :: t) ↔
        ¬ Identifier.OpenEscape name ∧ Identifier.Gap rest) ∧
      ∀ (sheet : Sheet) (format : Format) (text : String),
        sheet.compile ⟨format, true⟩ = .ok text → ∀ r ∈ sheet.rules, ∀ d ∈ r.custom,
          Identifier.isValid d.name = true ∧
            (d.name = s → ∃ before after, text.toList = before ++ s.toList ++ ':' :: after) := by
  obtain ⟨name, rest, hread, hrest⟩ := Identifier.exists_read?_of_isValid hs
  refine ⟨name, rest, hread, ?_, Identifier.token?_append_colon_iff hread hrest, ?_⟩
  · rw [Identifier.token?, hread, Option.map_some, hrest]
  · intro sheet format text h r hr d hd
    refine ⟨isValid_of_compile h hr hd, ?_⟩
    rintro rfl
    obtain ⟨before, after, htext⟩ := name_infix_of_compile h hr hd
    exact ⟨before, after, by simp [← htext]⟩

theorem checked_name_before_colon_closed_comment :
    ∃ sheet : Sheet, sheet.compile {} = .ok r"a{/**/b\31 /*:*/:c;}" ∧
      (∃ before after, r"a{/**/b\31 /*:*/:c;}".toList =
        before ++ r"/**/b\31 /*:*/".toList ++ ':' :: after) ∧
      ∀ t, Identifier.token? (r"/**/b\31 /*:*/".toList ++ ':' :: t) =
        some (r"b\31 ".toList, ':' :: t) := by
  let sheet : Sheet := ⟨[{ selector := "a", custom := [⟨r"/**/b\31 /*:*/", "c"⟩] }]⟩
  have htext : sheet.compile {} = .ok r"a{/**/b\31 /*:*/:c;}" := rfl
  obtain ⟨name, rest, hread, -, hcolon, hwritten⟩ :=
    @checked_name_before_colon r"/**/b\31 /*:*/" rfl
  have hread' : Identifier.read? r"/**/b\31 /*:*/".toList =
      some (r"b\31 ".toList, "/*:*/".toList) := rfl
  obtain ⟨rfl, rfl⟩ := Prod.mk.inj (Option.some.inj (hread'.symm.trans hread))
  have hgap : Identifier.Gap "/*:*/".toList := @Identifier.Gap.comment [':'] [] (by decide) .nil
  have hinfix := (hwritten sheet .compact _ htext _ List.mem_cons_self _ List.mem_cons_self).2 rfl
  exact ⟨sheet, htext, hinfix, fun t => (hcolon t).mpr ⟨by decide, hgap⟩⟩

/-- A valid name with an open comment after it is never read up to the colon that it is written
with. -/
theorem not_checked_name_before_colon :
    ¬ ∀ (s : String) (t : List Char), Identifier.isValid s = true → ∃ name,
      Identifier.token? s.toList = some (name, []) ∧
        Identifier.token? (s.toList ++ ':' :: t) = some (name, ':' :: t) := by
  intro h
  obtain ⟨name, -, hcolon⟩ := h "a/*" r"1;}".toList rfl
  have hswallowed : Identifier.token? ("a/*".toList ++ ':' :: r"1;}".toList) = some (['a'], []) :=
    rfl
  cases hswallowed.symm.trans hcolon

end Sheet

end Cascade
