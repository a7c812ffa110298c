import Cascade.Proofs.Outcome
import Cascade.Proofs.Reading.Cut

/-! # Reading pretty text

Pretty text is read line by line. The end of a line tells what the line is: a selector line ends
with a pair of braces, if it is all of its block, or with an opening brace, if lines with one
declaration each follow, up to a line that is a closing brace. A blank line stands before every
block but the first. So semicolons in values and braces in selectors do no harm: the reader
`Pretty.read?` reads back the blocks of a text (`Pretty.read?_render`) if no part of them has more
than one line and no name holds the two characters that end it. -/

namespace Cascade

/-! ### Blocks in lines -/

/-- Name and value take one line, and the name does not hold the characters that end it. -/
structure Declaration.OneLine (d : Declaration) : Prop where
  name : '\n' ∉ d.name.toList
  colon : ¬ [':', ' '] <:+: d.name.toList
  value : '\n' ∉ d.value.toList

/-- The selector takes one line, and so does every declaration. -/
structure Block.OneLine (b : Block) : Prop where
  selector : '\n' ∉ b.selector.toList
  declarations : ∀ d ∈ b.declarations, d.OneLine

instance (d : Declaration) : Decidable d.OneLine :=
  decidable_of_iff
    ('\n' ∉ d.name.toList ∧ ¬ [':', ' '] <:+: d.name.toList ∧ '\n' ∉ d.value.toList)
    ⟨fun h => ⟨h.1, h.2.1, h.2.2⟩, fun h => ⟨h.name, h.colon, h.value⟩⟩

instance (b : Block) : Decidable b.OneLine :=
  decidable_of_iff ('\n' ∉ b.selector.toList ∧ ∀ d ∈ b.declarations, d.OneLine)
    ⟨fun h => ⟨h.1, h.2⟩, fun h => ⟨h.selector, h.declarations⟩⟩

/-- The blocks that a sheet resolves to have parts of one line. -/
def Sheet.OneLine (sheet : Sheet) : Prop :=
  ∀ blocks, sheet.resolve = .ok blocks → ∀ b ∈ blocks, b.OneLine

namespace Pretty

/-! ### Lines -/

/-- The text of some lines. -/
def unlines (lines : List (List Char)) : List Char := lines.flatMap (· ++ ['\n'])

/-- The lines of a text in which every line is ended. -/
def lines? : List Char → Option (List (List Char))
  | [] => some []
  | c :: cs =>
    if c = '\n' then (lines? cs).map ([] :: ·)
    else
      match lines? cs with
      | some (line :: lines) => some ((c :: line) :: lines)
      | _ => none

theorem lines?_append {line : List Char} (h : '\n' ∉ line) (cs : List Char) :
    lines? (line ++ '\n' :: cs) = (lines? cs).map (line :: ·) := by
  induction line with
  | nil => rw [List.nil_append, lines?, if_pos rfl]
  | cons c line ih =>
    obtain ⟨hc, hline⟩ := not_or.mp (mt List.mem_cons.mpr h)
    rw [List.cons_append, lines?, if_neg (Ne.symm hc), ih hline]
    cases lines? cs <;> rfl

theorem lines?_unlines {lines : List (List Char)} (h : ∀ line ∈ lines, '\n' ∉ line) :
    lines? (unlines lines) = some lines := by
  induction lines with
  | nil => rfl
  | cons line lines ih =>
    obtain ⟨hline, h⟩ := List.forall_mem_cons.mp h
    rw [unlines, List.flatMap_cons, List.append_assoc, List.singleton_append,
      lines?_append hline, ← unlines, ih h]
    rfl

/-! ### The reader -/

/-- The declaration of a line. -/
def declaration? (line : List Char) : Option Declaration := do
  let text ← line.dropPrefix? [' ', ' ']
  let (name, text) ← text.dropInfix? [':', ' ']
  let value ← text.dropSuffix? [';']
  return ⟨.ofList name, .ofList value⟩

/-- The declarations of the lines up to one that is a closing brace, and the lines after it. -/
def declarations? : List (List Char) → Option (List Declaration × List (List Char))
  | [] => none
  | line :: lines =>
    if line = ['}'] then some ([], lines)
    else do
      let d ← declaration? line
      let (ds, rest) ← declarations? lines
      return (d :: ds, rest)

/-- The block of the first lines, and the lines after it. -/
def block? : List (List Char) → Option (Block × List (List Char))
  | [] => none
  | line :: lines =>
    match line.dropSuffix? [' ', '{', '}'] with
    | some selector => some (⟨.ofList selector, []⟩, lines)
    | none => do
      let selector ← line.dropSuffix? [' ', '{']
      let (ds, rest) ← declarations? lines
      return (⟨.ofList selector, ds⟩, rest)

theorem length_le_of_declarations? {lines rest : List (List Char)} {ds : List Declaration}
    (h : declarations? lines = some (ds, rest)) : rest.length ≤ lines.length := by
  induction lines generalizing ds with
  | nil => exact nomatch h
  | cons line lines ih =>
    rw [declarations?] at h
    split at h
    · obtain ⟨-, rfl⟩ := Prod.mk.inj (Option.some.inj h)
      exact Nat.le_succ _
    · obtain ⟨d, -, h⟩ := Option.bind_eq_some_iff.mp h
      obtain ⟨⟨ds', rest'⟩, hds, h⟩ := Option.bind_eq_some_iff.mp h
      obtain ⟨-, rfl⟩ := Prod.mk.inj (Option.some.inj h)
      exact (ih hds).trans (Nat.le_succ _)

theorem length_le_of_block? {lines rest : List (List Char)} {b : Block}
    (h : block? lines = some (b, rest)) : rest.length ≤ lines.length := by
  rcases lines with _ | ⟨line, lines⟩
  · exact nomatch h
  · rw [block?] at h
    split at h
    · obtain ⟨-, rfl⟩ := Prod.mk.inj (Option.some.inj h)
      exact Nat.le_succ _
    · obtain ⟨selector, -, h⟩ := Option.bind_eq_some_iff.mp h
      obtain ⟨⟨ds, rest'⟩, hds, h⟩ := Option.bind_eq_some_iff.mp h
      obtain ⟨-, rfl⟩ := Prod.mk.inj (Option.some.inj h)
      exact (length_le_of_declarations? hds).trans (Nat.le_succ _)

/-- The blocks of some lines, each after a blank line. -/
def blocks? : List (List Char) → Option (List Block)
  | [] => some []
  | line :: lines =>
    if line = [] then
      match _h : block? lines with
      | none => none
      | some (b, rest) => (blocks? rest).map (b :: ·)
    else none
termination_by lines => lines.length
decreasing_by exact Nat.lt_succ_of_le (length_le_of_block? _h)

/-- The blocks of a pretty text. It is read as if a blank line stood before its first block too. -/
def read? (text : String) : Option (List Block) := do
  let lines ← lines? text.toList
  if lines = [] then some [] else blocks? ([] :: lines)

/-! ### The lines of blocks -/

/-- The line of a declaration. -/
def declarationLine (d : Declaration) : List Char :=
  [' ', ' '] ++ (d.name.toList ++ [':', ' '] ++ (d.value.toList ++ [';']))

/-- The lines of a block. -/
def blockLines (b : Block) : List (List Char) :=
  match b.declarations with
  | [] => [b.selector.toList ++ [' ', '{', '}']]
  | ds => (b.selector.toList ++ [' ', '{']) :: (ds.map declarationLine ++ [['}']])

theorem unlines_append (ls ms : List (List Char)) :
    unlines (ls ++ ms) = unlines ls ++ unlines ms := List.flatMap_append

theorem unlines_cons (l : List Char) (ls : List (List Char)) :
    unlines (l :: ls) = l ++ '\n' :: unlines ls := by
  rw [unlines, List.flatMap_cons, List.append_assoc, List.singleton_append, ← unlines]

theorem blockLines_of_nil {b : Block} (h : b.declarations = []) :
    blockLines b = [b.selector.toList ++ [' ', '{', '}']] := by
  rw [blockLines, h]

theorem blockLines_of_ne_nil {b : Block} (h : b.declarations ≠ []) : blockLines b =
    (b.selector.toList ++ [' ', '{']) :: (b.declarations.map declarationLine ++ [['}']]) := by
  unfold blockLines
  split
  · next hnil => exact absurd hnil h
  · rfl

theorem prettyChunks_of_ne_nil {b : Block} (h : b.declarations ≠ []) : b.prettyChunks =
    b.selector :: (r" {" ++ "\n") ::
      b.declarations.flatMap (fun d => ["  ", d.name, ": ", d.value, ";\n"]) ++ [r"}" ++ "\n"] := by
  unfold Block.prettyChunks
  split
  · next hnil => exact absurd hnil h
  · rfl

theorem toList_block_render (b : Block) :
    (b.render .pretty).toList = unlines (blockLines b) := by
  have hdecl (d : Declaration) : ["  ", d.name, ": ", d.value, ";\n"].flatMap String.toList =
      declarationLine d ++ ['\n'] := by
    simp [declarationLine]
  rw [Block.render, Block.chunks, String.toList_join]
  by_cases h : b.declarations = []
  · rw [blockLines_of_nil h, Block.prettyChunks, h]
    simp [unlines]
  · rw [prettyChunks_of_ne_nil h, blockLines_of_ne_nil h]
    simp only [List.cons_append, List.flatMap_cons, List.flatMap_append, List.flatMap_assoc, hdecl,
      List.flatMap_nil, unlines, List.flatMap_map]
    simp

theorem toList_render {blocks : List Block} (h : blocks ≠ []) :
    '\n' :: (Format.pretty.render blocks).toList =
      unlines (blocks.flatMap fun b => [] :: blockLines b) := by
  induction blocks with
  | nil => exact absurd rfl h
  | cons b blocks ih =>
    rw [Format.render_cons, String.toList_append, String.toList_append, toList_block_render,
      List.flatMap_cons, unlines_append, unlines_cons, List.nil_append]
    by_cases hb : blocks = []
    · subst hb
      simp [Format.render, Format.chunks, unlines]
    · rw [← ih hb]
      simp [hb, Format.gap]

/-! ### Reading back -/

theorem declaration?_declarationLine {d : Declaration} (hd : d.OneLine) :
    declaration? (declarationLine d) = some d := by
  have hspaces : (declarationLine d).dropPrefix? [' ', ' '] =
      some (d.name.toList ++ [':', ' '] ++ (d.value.toList ++ [';'])) :=
    List.dropPrefix?_append_of_beq _ (beq_self_eq_true _)
  have hcolon : ¬ [':', ' '] <:+: d.name.toList ++ [':'] := by
    rw [List.infix_concat_iff, not_or]
    refine ⟨fun hsuffix => ?_, hd.colon⟩
    rcases List.suffix_concat_iff.mp hsuffix with hnil | ⟨t, ht, -⟩
    · exact nomatch hnil
    · have hlast := congrArg List.getLast? ht
      simp at hlast
  have hname := Reading.dropInfix?_append hcolon (d.value.toList ++ [';'])
  simp only [declaration?, hspaces, hname, Reading.dropSuffix?_append, Option.bind_eq_bind,
    Option.bind_some, String.ofList_toList]
  rfl

theorem declarations?_append {ds : List Declaration} (hds : ∀ d ∈ ds, d.OneLine)
    (rest : List (List Char)) :
    declarations? (ds.map declarationLine ++ ['}'] :: rest) = some (ds, rest) := by
  induction ds with
  | nil => rw [List.map_nil, List.nil_append, declarations?, if_pos rfl]
  | cons d ds ih =>
    obtain ⟨hd, hds⟩ := List.forall_mem_cons.mp hds
    have hne : declarationLine d ≠ ['}'] := by
      simp [declarationLine]
    rw [List.map_cons, List.cons_append, declarations?, if_neg hne,
      declaration?_declarationLine hd, ih hds]
    rfl

theorem block?_append {b : Block} (hb : b.OneLine) (rest : List (List Char)) :
    block? (blockLines b ++ rest) = some (b, rest) := by
  obtain ⟨selector, ds⟩ := b
  by_cases h : ds = []
  · subst h
    rw [blockLines_of_nil rfl, List.singleton_append, block?, Reading.dropSuffix?_append]
    simp
  · rw [blockLines_of_ne_nil h, List.cons_append, List.append_assoc, block?]
    -- the line of the selector does not end with both braces
    have hopen : (selector.toList ++ [' ', '{']).dropSuffix? [' ', '{', '}'] = none := by
      rw [Option.eq_none_iff_forall_ne_some]
      intro p hp
      obtain ⟨s, hs, hbeq⟩ := List.dropSuffix?_eq_some_iff.mp hp
      rw [eq_of_beq hbeq] at hs
      have hlast := congrArg List.getLast? hs
      simp at hlast
    rw [hopen, Reading.dropSuffix?_append, List.singleton_append, declarations?_append hb.declarations]
    simp

theorem blocks?_of_block? {lines rest : List (List Char)} {b : Block}
    (h : block? lines = some (b, rest)) : blocks? ([] :: lines) = (blocks? rest).map (b :: ·) := by
  rw [blocks?, if_pos rfl]
  split
  · next h' => exact nomatch h'.symm.trans h
  · next b' rest' h' =>
    obtain ⟨rfl, rfl⟩ := Prod.mk.inj (Option.some.inj (h'.symm.trans h))
    rfl

theorem blocks?_flatMap {blocks : List Block} (h : ∀ b ∈ blocks, b.OneLine) :
    blocks? (blocks.flatMap fun b => [] :: blockLines b) = some blocks := by
  induction blocks with
  | nil => rw [List.flatMap_nil, blocks?]
  | cons b blocks ih =>
    obtain ⟨hb, h⟩ := List.forall_mem_cons.mp h
    rw [List.flatMap_cons, List.cons_append, blocks?_of_block? (block?_append hb _), ih h]
    rfl

theorem not_mem_declarationLine {d : Declaration} (hd : d.OneLine) : '\n' ∉ declarationLine d := by
  have hname := hd.name
  have hvalue := hd.value
  simp [declarationLine, hname, hvalue]

theorem not_mem_of_mem_blockLines {b : Block} (hb : b.OneLine) :
    ∀ line ∈ blockLines b, '\n' ∉ line := by
  have hselector := hb.selector
  intro line hline
  by_cases h : b.declarations = []
  · rw [blockLines_of_nil h, List.mem_singleton] at hline
    subst hline
    simp [hselector]
  · rw [blockLines_of_ne_nil h] at hline
    simp only [List.mem_cons, List.mem_append, List.mem_map, List.not_mem_nil, or_false] at hline
    rcases hline with rfl | ⟨d, hd, rfl⟩ | rfl
    · simp [hselector]
    · exact not_mem_declarationLine (hb.declarations d hd)
    · simp

/-- **The reader reads back blocks with parts of one line.** -/
theorem read?_render {blocks : List Block} (h : ∀ b ∈ blocks, b.OneLine) :
    read? (Format.pretty.render blocks) = some blocks := by
  by_cases hne : blocks = []
  · subst hne
    rfl
  have hfree : ∀ line ∈ blocks.flatMap fun b => [] :: blockLines b, '\n' ∉ line := by
    intro line hline
    obtain ⟨b, hb, hline⟩ := List.mem_flatMap.mp hline
    rcases List.mem_cons.mp hline with rfl | hline
    · exact List.not_mem_nil
    · exact not_mem_of_mem_blockLines (h b hb) line hline
  have hread := blocks?_flatMap h
  have hlines := lines?_unlines hfree
  rw [← toList_render hne, lines?, if_pos rfl] at hlines
  obtain ⟨lines, hlines, heq⟩ := Option.map_eq_some_iff.mp hlines
  rw [← heq] at hread
  have hcons : lines ≠ [] := by
    rintro rfl
    rw [blocks?, if_pos rfl] at hread
    exact nomatch hread
  rw [read?, hlines]
  exact (if_neg hcons).trans hread

end Pretty

namespace Sheet

theorem outcome_blocks_format (sheet : Sheet) (format format' : Format) (validate : Bool) :
    (sheet.blocks ⟨format, validate⟩).outcome = (sheet.blocks ⟨format', validate⟩).outcome := rfl

/-- **Pretty text can be read back and has the content of compact text.** The two formats refuse the
same sheets with the same errors. The blocks read from the pretty text of a sheet with parts of one
line are those it resolves to, of which its compact text is the text. -/
theorem pretty_reads_back (sheet : Sheet) (validate : Bool) :
    (∀ e, sheet.compile ⟨.pretty, validate⟩ = .error e ↔
      sheet.compile ⟨.compact, validate⟩ = .error e) ∧
    ((∃ text, sheet.compile ⟨.pretty, validate⟩ = .ok text) ↔
      ∃ text, sheet.compile ⟨.compact, validate⟩ = .ok text) ∧
    ∀ text, sheet.compile ⟨.pretty, validate⟩ = .ok text → sheet.OneLine →
      ∃ blocks, sheet.resolve = .ok blocks ∧ Pretty.read? text = some blocks ∧
        sheet.compile ⟨.compact, validate⟩ = .ok (Format.compact.render blocks) := by
  have hformat := outcome_blocks_format sheet .pretty .compact validate
  refine ⟨fun e => ?_, ?_, fun text htext hline => ?_⟩
  · rw [compile_eq_error_iff, compile_eq_error_iff, hformat]
  · simp only [compile_eq_ok_iff, hformat]
    constructor
    · rintro ⟨_, blocks, h, -⟩
      exact ⟨_, blocks, h, rfl⟩
    · rintro ⟨_, blocks, h, -⟩
      exact ⟨_, blocks, h, rfl⟩
  · obtain ⟨blocks, h, rfl⟩ := compile_eq_ok_iff.mp htext
    have hresolve := resolve_of_outcome_blocks h
    refine ⟨blocks, hresolve, Pretty.read?_render (hline blocks hresolve), ?_⟩
    exact compile_eq_ok_iff.mpr ⟨blocks, hformat ▸ h, rfl⟩

/-- The first selector ends like the line of an empty block, and one of its names ends with a
colon. -/
theorem pretty_reads_back_braces_in_selector :
    ∃ (sheet : Sheet) (text : String), text = r"a {} {
  display: block;
  b:: ;;
}

{ {}
" ∧
      sheet.compile ⟨.pretty, false⟩ = .ok text ∧ sheet.OneLine ∧ Pretty.read? text =
        some [⟨"a {}", [⟨"display", "block"⟩, ⟨"b:", ";"⟩]⟩, ⟨r"{", []⟩] := by
  let sheet : Sheet := ⟨[
    { selector := "a {}", props := .ofList [(.display, .keyword "block")],
      custom := [⟨"b:", ";"⟩] },
    { selector := r"{" }]⟩
  obtain ⟨text, htext⟩ : ∃ text, sheet.compile ⟨.pretty, false⟩ = .ok text := ⟨_, rfl⟩
  have hresolve : sheet.resolve =
      .ok [⟨"a {}", [⟨"display", "block"⟩, ⟨"b:", ";"⟩]⟩, ⟨r"{", []⟩] := rfl
  have hline : sheet.OneLine := by
    intro blocks hblocks
    obtain rfl := Except.ok.inj (hresolve.symm.trans hblocks)
    decide
  obtain ⟨blocks, hblocks, hread, -⟩ := (pretty_reads_back sheet false).2.2 _ htext hline
  obtain rfl := Except.ok.inj (hresolve.symm.trans hblocks)
  exact ⟨sheet, text, (Except.ok.inj htext).symm, htext, hline, hread⟩

end Sheet

end Cascade
