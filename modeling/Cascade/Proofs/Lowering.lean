import Cascade.Proofs.Override

/-! # Lowering

What the slots of a rule declare can just as well be declared outside of them: a rule is *lowered*
to one without slots that declares the same, in the same order. A sheet that compiles is lowered to
one that compiles to the same text under the same options (`Sheet.lowered_compiles_equally`). If
names are checked, this needs that every name that a slot declares is valid
(`Slot.isValid_of_mem_resolve`). -/

namespace Cascade

/-! ### Names of slots -/

namespace Slot

theorem isValid_name (s : Slot) : Identifier.isValid s.name = true := by
  have hall : ∀ s ∈ all, Identifier.isValid s.name = true := by decide +kernel
  exact hall s (mem_all s)

theorem exists_name_of_text?_eq_some {s : Slot} {v : Value} {name text : String}
    (h : s.text? v name = some text) : ∃ t : Slot, t.isComposite = false ∧ t.name = name := by
  unfold text? at h
  split at h
  · split at h
    · next b _ =>
      unfold Border.part? at h
      split_ifs at h with hwidth hstyle hcolor
      · exact ⟨.borderWidth, rfl, hwidth.symm⟩
      · exact ⟨.borderStyle, rfl, hstyle.symm⟩
      · exact ⟨.borderColor, rfl, hcolor.symm⟩
    · cases h
  · next hs =>
    split_ifs at h with hname
    exact ⟨s, eq_false_of_ne_true hs, hname⟩

/-- **A slot declares only names of slots**, and of such as stand for one property. -/
theorem exists_name_of_mem_resolve {s : Slot} {v : Value} {ds : List Declaration}
    {d : Declaration} (h : s.resolve v = .ok ds) (hd : d ∈ ds) :
    ∃ t : Slot, t.isComposite = false ∧ t.name = d.name := by
  have hmem : d ∈ Declaration.named d.name ds := List.mem_filter.mpr ⟨hd, decide_eq_true rfl⟩
  rw [named_resolve h] at hmem
  cases htext : s.text? v d.name with
  | none =>
    rw [htext] at hmem
    cases hmem
  | some text => exact exists_name_of_text?_eq_some htext

/-- **Every name that a slot declares is valid.** -/
theorem isValid_of_mem_resolve {s : Slot} {v : Value} {ds : List Declaration} {d : Declaration}
    (h : s.resolve v = .ok ds) (hd : d ∈ ds) : Identifier.isValid d.name = true := by
  obtain ⟨t, -, ht⟩ := exists_name_of_mem_resolve h hd
  rw [← ht]
  exact t.isValid_name

end Slot

/-! ### Lowering a rule -/

/-- The rule that declares the same as a block, all of it outside the slots. -/
def Block.bare (b : Block) : Rule := { selector := b.selector, custom := b.declarations }

namespace Rule

/-- The rule that declares the same as another one, all of it outside the slots. -/
def lower (r : Rule) : Except Error Rule := Block.bare <$> r.resolve

variable {r : Rule} {b : Block} {typed : List Declaration} {options : Options} {index : Nat}

theorem resolve_bare (b : Block) : b.bare.resolve = .ok b := rfl

theorem isValid_of_typed (h : r.typed.outcome = .ok typed) :
    ∀ d ∈ typed, Identifier.isValid d.name = true := by
  obtain ⟨dss, hdss, rfl⟩ := exists_flatten_of_typed h
  intro d hd
  obtain ⟨ds, hds, hd⟩ := List.mem_flatten.mp hd
  obtain ⟨e, -, he⟩ := Outcome.exists_arg_of_mapM hdss ds hds
  exact Slot.isValid_of_mem_resolve he hd

theorem requireName_eq_ok_iff {d : Declaration} :
    d.requireName = .ok () ↔ Identifier.isValid d.name = true := by
  unfold Declaration.requireName
  split <;> simp_all

theorem requireNames_eq_ok_iff :
    r.requireNames = .ok () ↔ ∀ d ∈ r.custom, Identifier.isValid d.name = true := by
  unfold requireNames
  induction r.custom with
  | nil => exact iff_of_true rfl nofun
  | cons d ds ih =>
    rw [List.forM_eq_forM] at ih ⊢
    rw [List.forM_cons, List.forall_mem_cons, ← requireName_eq_ok_iff, ← ih]
    cases d.requireName <;> simp [bind, Except.bind]

theorem checkNames_bare (htyped : r.typed.outcome = .ok typed)
    (h : r.checkNames options = .ok ()) :
    (Block.mk r.selector (typed ++ r.custom)).bare.checkNames options = .ok () := by
  unfold checkNames at h ⊢
  split_ifs at h ⊢
  · rw [requireNames_eq_ok_iff] at h ⊢
    exact List.forall_mem_append.mpr ⟨isValid_of_typed htyped, h⟩
  · rfl

/-- **A rule that is not refused is lowered to one with the same block.** -/
theorem outcome_block_bare (h : (r.block options index).outcome = .ok b) :
    (b.bare.block options index).outcome = .ok b := by
  obtain ⟨typed, htyped, rfl⟩ := exists_typed_of_resolve (resolve_of_outcome_block h)
  rw [outcome_block] at h
  obtain ⟨_, hselector, h⟩ := Outcome.bind_eq_ok_iff.mp h
  obtain ⟨_, -, h⟩ := Outcome.bind_eq_ok_iff.mp h
  obtain ⟨_, hnames, -⟩ := Outcome.bind_eq_ok_iff.mp h
  have hselector' : (Block.mk r.selector (typed ++ r.custom)).bare.requireSelector index = .ok () :=
    hselector
  rw [outcome_block, hselector', resolve_bare, checkNames_bare htyped hnames]
  rfl

theorem outcome_blocksFrom_bare {start : Nat} {rules : List Rule} {blocks : List Block}
    (h : (blocksFrom start rules options).outcome = .ok blocks) :
    (blocksFrom start (blocks.map Block.bare) options).outcome = .ok blocks := by
  induction rules generalizing start blocks with
  | nil =>
    obtain rfl : [] = blocks := Except.ok.inj h
    rfl
  | cons r rules ih =>
    rw [outcome_blocksFrom_cons] at h
    obtain ⟨b, hb, h⟩ := Outcome.bind_eq_ok_iff.mp h
    obtain ⟨bs, hbs, h⟩ := Outcome.bind_eq_ok_iff.mp h
    obtain rfl := Except.ok.inj h
    rw [List.map_cons, outcome_blocksFrom_cons, outcome_block_bare hb, ih hbs]
    rfl

end Rule

/-! ### Lowering a sheet -/

namespace Sheet

/-- The sheet of the lowered rules. -/
def lower (sheet : Sheet) : Except Error Sheet := Sheet.mk <$> sheet.rules.mapM Rule.lower

variable {sheet lowered : Sheet} {options : Options} {text : String}

theorem lower_eq_map_resolve :
    sheet.lower = (fun blocks => Sheet.mk (blocks.map Block.bare)) <$> sheet.resolve := by
  have hrules : sheet.rules.mapM Rule.lower = List.map Block.bare <$> sheet.resolve :=
    Outcome.mapM_map_result Rule.resolve Block.bare sheet.rules
  rw [lower, hrules]
  cases sheet.resolve <;> rfl

theorem resolve_bare (blocks : List Block) :
    (Sheet.mk (blocks.map Block.bare)).resolve = .ok blocks := by
  rw [resolve, Outcome.mapM_eq_ok_iff, List.forall₂_map_left_iff, List.forall₂_same]
  exact fun b _ => Rule.resolve_bare b

/-- **Lowering twice is lowering once.** -/
theorem lower_lower (sheet : Sheet) : sheet.lower >>= lower = sheet.lower := by
  rw [lower_eq_map_resolve]
  cases sheet.resolve with
  | error e => rfl
  | ok blocks =>
    change (Sheet.mk (blocks.map Block.bare)).lower = _
    rw [lower_eq_map_resolve, resolve_bare]

/-- **A sheet and its lowering compile to the same text.** A lowered rule has the selector of the
rule and declares what its slots declare and then what it declares itself, all of it outside the
slots. Every name that a slot declares is valid, and lowering twice is lowering once. -/
theorem lowered_compiles_equally :
    (∀ (sheet : Sheet) (options : Options) (text : String), sheet.compile options = .ok text →
      ∃ lowered : Sheet, sheet.lower = .ok lowered ∧
        List.Forall₂ (fun r l => ∃ typed, r.typed.outcome = .ok typed ∧
          l = { selector := r.selector, custom := typed ++ r.custom }) sheet.rules lowered.rules ∧
        lowered.compile options = .ok text) ∧
    (∀ (s : Slot) (v : Value) (ds : List Declaration), s.resolve v = .ok ds →
      ∀ d ∈ ds, Identifier.isValid d.name = true) ∧
    ∀ sheet : Sheet, sheet.lower >>= lower = sheet.lower := by
  refine ⟨fun sheet options text h => ?_, fun s v ds h d hd => Slot.isValid_of_mem_resolve h hd,
    lower_lower⟩
  obtain ⟨blocks, hblocks, rfl⟩ := compile_eq_ok_iff.mp h
  have hresolve := resolve_of_outcome_blocks hblocks
  have hbare : (Sheet.blocks ⟨blocks.map Block.bare⟩ options).outcome = .ok blocks :=
    Rule.outcome_blocksFrom_bare hblocks
  refine ⟨⟨blocks.map Block.bare⟩, ?_, ?_, compile_eq_ok_iff.mpr ⟨blocks, hbare, rfl⟩⟩
  · rw [lower_eq_map_resolve, hresolve]
    rfl
  · rw [List.forall₂_map_right_iff]
    refine (Outcome.mapM_eq_ok_iff.mp hresolve).imp fun r b hb => ?_
    obtain ⟨typed, htyped, rfl⟩ := Rule.exists_typed_of_resolve hb
    exact ⟨typed, htyped, rfl⟩

/-- A border of which only the style counts, a blank keyword, and a declaration with an empty value,
where names are checked. -/
theorem lowered_compiles_equally_border :
    ∃ (sheet lowered : Sheet) (text : String), text = "a {
  border-style: solid;
  width: auto;
  b: ;
}
" ∧
      sheet.compile .pretty = .ok text ∧ sheet.lower = .ok lowered ∧
      lowered.rules.map Rule.custom =
        [[⟨"border-style", "solid"⟩, ⟨"width", "auto"⟩, ⟨"b", ""⟩]] ∧
      lowered.compile .pretty = .ok text := by
  let sheet : Sheet := ⟨[{
    selector := "a"
    props := .ofList [(.width, .length .auto), (.color, .keyword " "),
      (.border, .border ⟨none, some .solid, some (.hex " #")⟩)]
    custom := [⟨"b", ""⟩] }]⟩
  refine ⟨sheet, ?_⟩
  obtain ⟨text, htext⟩ : ∃ text, sheet.compile .pretty = .ok text := ⟨_, rfl⟩
  obtain ⟨lowered, hlower, -, hcompile⟩ := lowered_compiles_equally.1 sheet .pretty _ htext
  have hrules : lowered.rules.map Rule.custom =
      [[⟨"border-style", "solid"⟩, ⟨"width", "auto"⟩, ⟨"b", ""⟩]] := by
    obtain rfl := Except.ok.inj hlower
    rfl
  exact ⟨lowered, text, (Except.ok.inj htext).symm, htext, hlower, hrules, hcompile⟩

end Sheet

end Cascade
