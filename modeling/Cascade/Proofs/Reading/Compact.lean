import Cascade.Proofs.Outcome
import Cascade.Proofs.Reading.Cut

/-! # Reading compact text

Compact text has no white space to tell its parts from each other: a selector ends at the first
brace, a name at the first colon, a value at the first semicolon, and the declarations of a block at
a closing brace in place of a name. The reader `Compact.read?` goes by these rules alone. It reads
back the blocks of a text (`Compact.read?_render`) if they are *delimited*: no part of them holds
the character that ends it. -/

namespace Cascade

/-! ### Delimited blocks -/

/-- Name and value do not hold the character that ends them, and the name does not begin with the
one that ends a block. -/
structure Declaration.Delimited (d : Declaration) : Prop where
  name : ':' ∉ d.name.toList
  start : d.name.toList.head? ≠ some '}'
  value : ';' ∉ d.value.toList

instance (d : Declaration) : Decidable d.Delimited :=
  decidable_of_iff (':' ∉ d.name.toList ∧ d.name.toList.head? ≠ some '}' ∧ ';' ∉ d.value.toList)
    ⟨fun h => ⟨h.1, h.2.1, h.2.2⟩, fun h => ⟨h.name, h.start, h.value⟩⟩

/-- The selector does not hold the character that ends it, and the declarations are delimited. -/
structure Block.Delimited (b : Block) : Prop where
  selector : '{' ∉ b.selector.toList
  declarations : ∀ d ∈ b.declarations, d.Delimited

instance (b : Block) : Decidable b.Delimited :=
  decidable_of_iff ('{' ∉ b.selector.toList ∧ ∀ d ∈ b.declarations, d.Delimited)
    ⟨fun h => ⟨h.1, h.2⟩, fun h => ⟨h.selector, h.declarations⟩⟩

/-- The blocks that a sheet resolves to are delimited. -/
def Sheet.Delimited (sheet : Sheet) : Prop :=
  ∀ blocks, sheet.resolve = .ok blocks → ∀ b ∈ blocks, b.Delimited

namespace Compact

/-! ### The reader -/

/-- The declaration at the beginning of a text, and the text after it. -/
def declaration? (cs : List Char) : Option (Declaration × List Char) := do
  let (name, cs) ← cs.dropInfix? [':']
  let (value, rest) ← cs.dropInfix? [';']
  return (⟨.ofList name, .ofList value⟩, rest)

theorem length_lt_of_declaration? {cs rest : List Char} {d : Declaration}
    (h : declaration? cs = some (d, rest)) : rest.length < cs.length := by
  obtain ⟨⟨name, cs'⟩, hname, h⟩ := Option.bind_eq_some_iff.mp h
  obtain ⟨⟨value, rest'⟩, hvalue, h⟩ := Option.bind_eq_some_iff.mp h
  obtain ⟨-, rfl⟩ := Prod.mk.inj (Option.some.inj h)
  have hlt := Reading.length_lt_of_dropInfix? (List.cons_ne_nil _ _) hname
  have hlt' := Reading.length_lt_of_dropInfix? (List.cons_ne_nil _ _) hvalue
  omega

/-- The declarations up to a closing brace in place of a name, and the text after it. -/
def declarations? (cs : List Char) : Option (List Declaration × List Char) :=
  if cs.head? = some '}' then some ([], cs.tail)
  else
    match _h : declaration? cs with
    | none => none
    | some (d, cs) => (declarations? cs).map fun p => (d :: p.1, p.2)
termination_by cs.length
decreasing_by exact length_lt_of_declaration? _h

theorem length_le_of_declarations? {cs : List Char} {ds : List Declaration} {rest : List Char}
    (h : declarations? cs = some (ds, rest)) : rest.length ≤ cs.length := by
  fun_induction declarations? cs generalizing ds rest with
  | case1 cs hc =>
    obtain ⟨-, rfl⟩ := Prod.mk.inj (Option.some.inj h)
    simp
  | case2 => exact nomatch h
  | case3 cs hc d cs' hd ih =>
    obtain ⟨⟨ds', rest'⟩, hp, hpair⟩ := Option.map_eq_some_iff.mp h
    obtain ⟨-, rfl⟩ := Prod.mk.inj hpair
    have hlt := length_lt_of_declaration? hd
    exact (ih hp).trans hlt.le

/-- The block at the beginning of a text, and the text after it. -/
def block? (cs : List Char) : Option (Block × List Char) := do
  let (selector, cs) ← cs.dropInfix? ['{']
  let (ds, rest) ← declarations? cs
  return (⟨.ofList selector, ds⟩, rest)

theorem length_lt_of_block? {cs rest : List Char} {b : Block}
    (h : block? cs = some (b, rest)) : rest.length < cs.length := by
  obtain ⟨⟨selector, cs'⟩, hselector, h⟩ := Option.bind_eq_some_iff.mp h
  obtain ⟨⟨ds, rest'⟩, hds, h⟩ := Option.bind_eq_some_iff.mp h
  obtain ⟨-, rfl⟩ := Prod.mk.inj (Option.some.inj h)
  have hlt := Reading.length_lt_of_dropInfix? (List.cons_ne_nil _ _) hselector
  have hle := length_le_of_declarations? hds
  omega

/-- The blocks up to the end of a text. -/
def blocks? (cs : List Char) : Option (List Block) :=
  if cs = [] then some []
  else
    match _h : block? cs with
    | none => none
    | some (b, cs) => (blocks? cs).map (b :: ·)
termination_by cs.length
decreasing_by exact length_lt_of_block? _h

/-- The blocks of a compact text. -/
def read? (text : String) : Option (List Block) := blocks? text.toList

/-! ### The texts of blocks -/

/-- The characters of a declaration. -/
def declarationChars (d : Declaration) : List Char :=
  d.name.toList ++ ':' :: (d.value.toList ++ [';'])

/-- The characters of a block. -/
def blockChars (b : Block) : List Char :=
  b.selector.toList ++ '{' :: (b.declarations.flatMap declarationChars ++ ['}'])

theorem toList_block_render (b : Block) : (b.render .compact).toList = blockChars b := by
  have hdecl (d : Declaration) :
      [d.name, ":", d.value, ";"].flatMap String.toList = declarationChars d := by
    simp [declarationChars]
  simp only [Block.render, Block.chunks, Block.compactChunks, String.toList_join,
    List.flatMap_append, List.flatMap_cons, List.flatMap_nil, List.flatMap_assoc, hdecl, blockChars]
  simp

theorem toList_render (blocks : List Block) :
    (Format.compact.render blocks).toList = blocks.flatMap blockChars := by
  induction blocks with
  | nil => rfl
  | cons b blocks ih =>
    have hgap : (if blocks.isEmpty then "" else Format.compact.gap) = "" := ite_self ""
    rw [Format.render_cons, hgap, String.append_empty, String.toList_append, toList_block_render,
      ih, List.flatMap_cons]

/-! ### Reading back -/

theorem declaration?_append {d : Declaration} (hd : d.Delimited) (rest : List Char) :
    declaration? (declarationChars d ++ rest) = some (d, rest) := by
  have hname := Reading.dropInfix?_singleton hd.name (d.value.toList ++ ';' :: rest)
  have hvalue := Reading.dropInfix?_singleton hd.value rest
  simp [declaration?, declarationChars, hname, hvalue]

theorem declarations?_of_declaration? {cs cs' : List Char} {d : Declaration}
    (hc : cs.head? ≠ some '}') (h : declaration? cs = some (d, cs')) :
    declarations? cs = (declarations? cs').map fun p => (d :: p.1, p.2) := by
  rw [declarations?, if_neg hc]
  split
  · next h' => exact nomatch h'.symm.trans h
  · next d' rest h' =>
    obtain ⟨rfl, rfl⟩ := Prod.mk.inj (Option.some.inj (h'.symm.trans h))
    rfl

theorem declarations?_append {ds : List Declaration} (hds : ∀ d ∈ ds, d.Delimited)
    (rest : List Char) :
    declarations? (ds.flatMap declarationChars ++ '}' :: rest) = some (ds, rest) := by
  induction ds with
  | nil =>
    rw [List.flatMap_nil, List.nil_append, declarations?, List.head?_cons, if_pos rfl,
      List.tail_cons]
  | cons d ds ih =>
    obtain ⟨hd, hds⟩ := List.forall_mem_cons.mp hds
    have hstart : (declarationChars d ++ (ds.flatMap declarationChars ++ '}' :: rest)).head? ≠
        some '}' := by
      have h := hd.start
      unfold declarationChars
      cases hn : d.name.toList with
      | nil => simp
      | cons c cs => simpa [hn] using h
    rw [List.flatMap_cons, List.append_assoc,
      declarations?_of_declaration? hstart (declaration?_append hd _), ih hds]
    rfl

theorem block?_append {b : Block} (hb : b.Delimited) (rest : List Char) :
    block? (blockChars b ++ rest) = some (b, rest) := by
  have hselector := Reading.dropInfix?_singleton hb.selector
    (b.declarations.flatMap declarationChars ++ '}' :: rest)
  have hds := declarations?_append hb.declarations rest
  simp [block?, blockChars, hselector, hds]

theorem blocks?_of_block? {cs cs' : List Char} {b : Block} (h : block? cs = some (b, cs')) :
    blocks? cs = (blocks? cs').map (b :: ·) := by
  have hne : cs ≠ [] := by
    rintro rfl
    exact absurd (length_lt_of_block? h) (Nat.not_lt_zero _)
  rw [blocks?, if_neg hne]
  split
  · next h' => exact nomatch h'.symm.trans h
  · next b' rest h' =>
    obtain ⟨rfl, rfl⟩ := Prod.mk.inj (Option.some.inj (h'.symm.trans h))
    rfl

/-- **The reader reads back delimited blocks.** -/
theorem read?_render {blocks : List Block} (h : ∀ b ∈ blocks, b.Delimited) :
    read? (Format.compact.render blocks) = some blocks := by
  rw [read?, toList_render]
  induction blocks with
  | nil => rw [List.flatMap_nil, blocks?, if_pos rfl]
  | cons b blocks ih =>
    obtain ⟨hb, h⟩ := List.forall_mem_cons.mp h
    rw [List.flatMap_cons, blocks?_of_block? (block?_append hb _), ih h]
    rfl

end Compact

namespace Sheet

/-- **Compact text can be read back.** The blocks of a delimited sheet are read from its text, and
so two such sheets have one text exactly if they resolve to the same blocks. -/
theorem compact_reads_back {sheet : Sheet} {validate : Bool} {text : String}
    (h : sheet.compile ⟨.compact, validate⟩ = .ok text) (hd : sheet.Delimited) :
    (∃ blocks, sheet.resolve = .ok blocks ∧ Compact.read? text = some blocks) ∧
      ∀ (other : Sheet) (validate' : Bool) (text' : String), other.Delimited →
        other.compile ⟨.compact, validate'⟩ = .ok text' →
          (text = text' ↔ sheet.resolve = other.resolve) := by
  obtain ⟨blocks, hblocks, rfl⟩ := exists_resolve_of_compile h
  have hread := Compact.read?_render (hd blocks hblocks)
  refine ⟨⟨blocks, hblocks, hread⟩, fun other validate' text' hd' h' => ?_⟩
  obtain ⟨blocks', hblocks', rfl⟩ := exists_resolve_of_compile h'
  have hread' := Compact.read?_render (hd' blocks' hblocks')
  rw [hblocks, hblocks', Except.ok.injEq]
  constructor
  · intro htext
    exact Option.some.inj (hread.symm.trans ((congrArg Compact.read? htext).trans hread'))
  · rintro rfl
    rfl

theorem compact_reads_back_repeated_selector :
    ∃ sheet : Sheet, sheet.compile {} = .ok r"a{}a{display:block;--x:;--x:1;}" ∧
      sheet.Delimited ∧ Compact.read? r"a{}a{display:block;--x:;--x:1;}" =
        some [⟨"a", []⟩, ⟨"a", [⟨"display", "block"⟩, ⟨"--x", ""⟩, ⟨"--x", "1"⟩]⟩] := by
  let sheet : Sheet := ⟨[{ selector := "a" },
    { selector := "a", props := .ofList [(.display, .keyword "block")],
      custom := [⟨"--x", ""⟩, ⟨"--x", "1"⟩] }]⟩
  have htext : sheet.compile {} = .ok r"a{}a{display:block;--x:;--x:1;}" := rfl
  have hresolve : sheet.resolve =
      .ok [⟨"a", []⟩, ⟨"a", [⟨"display", "block"⟩, ⟨"--x", ""⟩, ⟨"--x", "1"⟩]⟩] := rfl
  have hd : sheet.Delimited := by
    intro blocks hblocks
    obtain rfl := Except.ok.inj (hresolve.symm.trans hblocks)
    decide
  obtain ⟨blocks, hblocks, hread⟩ := (compact_reads_back htext hd).1
  obtain rfl := Except.ok.inj (hresolve.symm.trans hblocks)
  exact ⟨sheet, htext, hd, hread⟩

end Sheet

end Cascade
