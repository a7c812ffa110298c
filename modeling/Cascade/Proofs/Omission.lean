import Cascade.Proofs.Override
import Mathlib.Data.List.TakeWhile

/-! # Omission

A value that a slot takes but that has no text is *omitted*: it declares nothing. So it is as if the
slot had no value at all. Whichever omitted values are taken out of the rules of a sheet, what comes
of the sheet stays the same, be it a text or an error (`Sheet.omitted_as_never_assigned`).

Main statements:
- `Value.css?_eq_none_iff`: the values without a text are the blank ones.
- `Slot.resolve_eq_nil_iff`: the omitted values are those that are accepted and declare nothing.
- `Rule.resolve_without`: a rule resolves to the same block without some of its omitted values. -/

namespace Cascade

/-! ### Values without a text -/

/-- A name or a function of white space only, or a hexadecimal color without digits. -/
def Color.Blank : Color → Prop
  | inherit | transparent | currentColor => False
  | named text | function text => Text.isBlank text = true
  | hex text => ∀ c ∈ Text.trim text.toList, c = '#'

/-- A keyword or raw text of white space only, a blank color, or a border without any part that is
set and not blank. -/
def Value.Blank : Value → Prop
  | keyword text | raw text => Text.isBlank text = true
  | length _ => False
  | color c => c.Blank
  | border b => b.width? = none ∧ b.style? = none ∧ ∀ c, b.color? = some c → c.Blank

theorem Text.nonBlank?_eq_none_iff {s : String} : nonBlank? s = none ↔ isBlank s = true := by
  unfold nonBlank?
  split <;> simp_all

theorem Color.hexDigits_eq_nil_iff {cs : List Char} :
    hexDigits cs = [] ↔ ∀ c ∈ Text.trim cs, c = '#' := by
  rw [hexDigits, List.dropWhile_eq_nil_iff]
  simp only [beq_iff_eq]

theorem Color.css?_eq_none_iff {c : Color} : c.css? = none ↔ c.Blank := by
  cases c with
  | inherit | transparent | currentColor => exact iff_of_false nofun id
  | named text | function text => exact Text.nonBlank?_eq_none_iff
  | hex text =>
    rw [Blank, ← hexDigits_eq_nil_iff, css?]
    cases hexDigits text.toList <;> simp

namespace Border

theorem css?_eq_none_iff_partTexts {b : Border} : b.css? = none ↔ b.partTexts = [] := by
  unfold css?
  cases b.partTexts <;> simp

theorem css?_eq_none_iff {b : Border} : b.css? = none ↔
    b.width? = none ∧ b.style? = none ∧ ∀ c, b.color? = some c → c.Blank := by
  rw [css?_eq_none_iff_partTexts, partTexts]
  simp only [← Color.css?_eq_none_iff]
  cases b.width? <;> cases b.style? <;> cases b.color? <;> simp

end Border

/-- **The values without a text are the blank ones.** -/
theorem Value.css?_eq_none_iff {v : Value} : v.css? = none ↔ v.Blank := by
  cases v with
  | keyword text | raw text => exact Text.nonBlank?_eq_none_iff
  | length l => exact iff_of_false nofun id
  | color c => exact Color.css?_eq_none_iff
  | border b => exact Border.css?_eq_none_iff

/-! ### Omitted values -/

/-- The slot takes the value, but the value has no text. -/
def Slot.Omits (s : Slot) (v : Value) : Prop := s.accepts v = true ∧ v.css? = none

theorem Border.map_value_declarations {b : Border} {ds : List Declaration}
    (h : b.declarations = .ok ds) : ds.map Declaration.value = b.partTexts := by
  obtain ⟨width, hwidth, h⟩ := Outcome.bind_eq_ok_iff.mp h
  rw [← Except.ok.inj h, widthDeclarations_eq hwidth, styleDeclarations_eq, colorDeclarations_eq,
    partTexts]
  cases b.width? <;> cases b.style? <;> cases b.color?.bind Color.css? <;> rfl

theorem Border.declarations_eq_nil_iff {b : Border} : b.declarations = .ok [] ↔ b.css? = none := by
  constructor
  · intro h
    rw [css?_eq_none_iff_partTexts, ← map_value_declarations h, List.map_nil]
  · intro h
    -- without a width nothing can be refused
    have hwidth : b.widthDeclarations = .ok [] := by
      rw [widthDeclarations, (css?_eq_none_iff.mp h).1]
    have hok : b.declarations = .ok ([] ++ b.styleDeclarations ++ b.colorDeclarations) := by
      rw [declarations, hwidth]
      rfl
    have hvalues := map_value_declarations hok
    rw [css?_eq_none_iff_partTexts.mp h, List.map_eq_nil_iff] at hvalues
    rw [hok, hvalues]

theorem Slot.accepts_of_resolve {s : Slot} {v : Value} {ds : List Declaration}
    (h : s.resolve v = .ok ds) : s.accepts v = true := by
  unfold resolve at h
  split at h
  · assumption
  · cases h

/-- **The omitted values are those that are accepted and declare nothing.** -/
theorem Slot.resolve_eq_nil_iff {s : Slot} {v : Value} : s.resolve v = .ok [] ↔ s.Omits v := by
  constructor
  · intro h
    refine ⟨accepts_of_resolve h, ?_⟩
    by_cases hs : s.isComposite = true
    · obtain ⟨b, rfl, hb⟩ := resolve_eq_border h hs
      exact Border.declarations_eq_nil_iff.mp hb
    · have hplain := resolve_eq_plain h (eq_false_of_ne_true hs)
      unfold plain at hplain
      cases hv : v.css? with
      | none => rfl
      | some text =>
        rw [hv] at hplain
        cases hplain
  · rintro ⟨haccepts, hv⟩
    have hplain : s.plain v = [] := by rw [plain, hv]
    unfold resolve
    rw [if_pos haccepts]
    cases v with
    | keyword | raw | color => exact congrArg Except.ok hplain
    | length l => cases hv
    | border b => exact Border.declarations_eq_nil_iff.mpr hv

/-! ### Taking values out of a rule -/

/-- The set without the values of some slots. -/
def PropSet.without (p : PropSet) (drop : Slot → Bool) : PropSet :=
  ⟨p.entries.filter fun e => !drop e.1, p.sorted.filter _⟩

theorem Outcome.flatten_mapM_cons {ε α β : Type} {f : α → Except ε (List β)} {x : α}
    {xs : List α} : List.flatten <$> (x :: xs).mapM f =
      f x >>= fun y => (y ++ ·) <$> List.flatten <$> xs.mapM f := by
  rw [List.mapM_cons]
  cases f x with
  | error e => rfl
  | ok y => cases xs.mapM f <;> rfl

theorem Outcome.flatten_mapM_filter {ε α β : Type} {f : α → Except ε (List β)} {q : α → Bool}
    {xs : List α} (h : ∀ x ∈ xs, q x = false → f x = .ok []) :
    List.flatten <$> (xs.filter q).mapM f = List.flatten <$> xs.mapM f := by
  induction xs with
  | nil => rfl
  | cons x xs ih =>
    obtain ⟨hx, hxs⟩ := List.forall_mem_cons.mp h
    rw [flatten_mapM_cons, ← ih hxs, List.filter_cons]
    cases hq : q x with
    | true => rw [if_pos rfl, flatten_mapM_cons]
    | false =>
      rw [if_neg Bool.false_ne_true, hx hq]
      cases (xs.filter q).mapM f <;> rfl

namespace Rule

/-- The rule without the values of some slots. -/
def without (r : Rule) (drop : Slot → Bool) : Rule := { r with props := r.props.without drop }

variable {r : Rule} {drop : Slot → Bool}

/-- All values of the slots with a property are omitted. -/
def OmitsAll (r : Rule) (drop : Slot → Bool) : Prop :=
  ∀ s v, drop s = true → r.props.get? s = some v → s.Omits v

/-- **A rule resolves to the same block without some of its omitted values.** -/
theorem resolve_without (h : r.OmitsAll drop) : (r.without drop).resolve = r.resolve := by
  have htyped : (r.without drop).typed.outcome = r.typed.outcome := by
    rw [outcome_typed, outcome_typed]
    refine Outcome.flatten_mapM_filter fun e he hdrop => ?_
    have hget : r.props.get? e.1 = some e.2 := PropSet.get?_eq_some_iff.mpr he
    exact Slot.resolve_eq_nil_iff.mpr (h e.1 e.2 (by simpa using hdrop) hget)
  rw [resolve_eq_map_typed, resolve_eq_map_typed, htyped]
  rfl

theorem outcome_block_without (h : r.OmitsAll drop) (options : Options) (index : Nat) :
    ((r.without drop).block options index).outcome = (r.block options index).outcome := by
  rw [outcome_block, outcome_block, resolve_without h]
  rfl

theorem resolve_of_omits (h : ∀ s v, r.props.get? s = some v → s.Omits v) :
    r.resolve = .ok ⟨r.selector, r.custom⟩ := by
  have hall : r.OmitsAll fun _ => true := fun s v _ hv => h s v hv
  have hempty : (r.without fun _ => true).props.entries = [] := by
    rw [without, PropSet.without]
    simp
  rw [← resolve_without hall, resolve, hempty]
  rfl

theorem outcome_block_of_omits (h : ∀ s v, r.props.get? s = some v → s.Omits v)
    (hselector : Text.isBlank r.selector = false) (hcustom : r.custom = []) (options : Options)
    (index : Nat) : (r.block options index).outcome = .ok ⟨r.selector, []⟩ := by
  have hnames : r.checkNames options = .ok () := checkNames_of_nil r options hcustom
  rw [outcome_block, requireSelector, hselector, resolve_of_omits h, hcustom, hnames]
  rfl

theorem outcome_blocksFrom_without {rules : List Rule} {drop : Nat → Slot → Bool}
    (h : ∀ (i : Nat) (r : Rule), rules[i]? = some r → r.OmitsAll (drop i)) (start : Nat)
    (options : Options) :
    (blocksFrom start (rules.mapIdx fun i r => r.without (drop i)) options).outcome =
      (blocksFrom start rules options).outcome := by
  induction rules generalizing start drop with
  | nil => rfl
  | cons r rules ih =>
    have hr := outcome_block_without (h 0 r rfl) options start
    have hrules := ih (fun i => h (i + 1)) (start + 1)
    rw [List.mapIdx_cons, outcome_blocksFrom_cons, outcome_blocksFrom_cons, hr, hrules]

end Rule

/-! ### Taking values out of a sheet -/

theorem Block.render_compact_of_nil (selector : String) :
    (Block.mk selector []).render .compact = selector ++ "{}" := by
  simp [render, chunks, compactChunks]

theorem Block.render_pretty_of_nil (selector : String) :
    (Block.mk selector []).render .pretty = selector ++ " {}\n" := by
  simp [render, chunks, prettyChunks]

namespace Sheet

/-- The sheet without the values of some slots of its rules, which are given by the indices of the
rules. -/
def without (sheet : Sheet) (drop : Nat → Slot → Bool) : Sheet :=
  ⟨sheet.rules.mapIdx fun i r => r.without (drop i)⟩

variable {a b : Sheet} {options : Options}

theorem writeTo_congr_of_outcome {σ : Type} [Output σ]
    (h : (a.blocks options).outcome = (b.blocks options).outcome) (sink : σ) :
    (a.writeTo options sink).result = (b.writeTo options sink).result ∧
      (a.writeTo options sink).sink = (b.writeTo options sink).sink := by
  cases hb : (b.blocks options).outcome with
  | error e =>
    obtain ⟨hresult, hsink⟩ := @writeTo_of_error a options σ _ sink e (h.trans hb)
    obtain ⟨hresult', hsink'⟩ := @writeTo_of_error b options σ _ sink e hb
    exact ⟨hresult.trans hresult'.symm, hsink.trans hsink'.symm⟩
  | ok blocks =>
    obtain ⟨hsink, hresult⟩ := @writeTo_of_ok a options blocks σ _ sink (h.trans hb)
    obtain ⟨hsink', hresult'⟩ := @writeTo_of_ok b options blocks σ _ sink hb
    exact ⟨hresult.trans hresult'.symm, hsink.trans hsink'.symm⟩

theorem compile_singleton_of_outcome {r : Rule} {b : Block}
    (h : (r.block options 0).outcome = .ok b) :
    compile ⟨[r]⟩ options = .ok (b.render options.format) := by
  refine compile_eq_ok_iff.mpr ⟨[b], ?_, options.format.render_singleton b⟩
  rw [outcome_blocks_eq_ok_iff]
  exact .cons h .nil

/-- **An omitted value is exactly one that was never assigned.** Without any of the omitted values,
a sheet has the same text or the same error, and leaves the same in an output. A rule that assigns
nothing but omitted values is written as an empty rule. -/
theorem omitted_as_never_assigned :
    (∀ v : Value, v.css? = none ↔ v.Blank) ∧
    (∀ (sheet : Sheet) (drop : Nat → Slot → Bool),
      (∀ (i : Nat) (r : Rule) (s : Slot) (v : Value), sheet.rules[i]? = some r →
        drop i s = true → r.props.get? s = some v → s.accepts v = true ∧ v.css? = none) →
      ∀ {σ : Type} [Output σ] (options : Options) (sink : σ),
        (sheet.without drop).compile options = sheet.compile options ∧
        ((sheet.without drop).writeTo options sink).result = (sheet.writeTo options sink).result ∧
        ((sheet.without drop).writeTo options sink).sink = (sheet.writeTo options sink).sink) ∧
    ∀ r : Rule, Text.isBlank r.selector = false → r.custom = [] →
      (∀ (s : Slot) (v : Value), r.props.get? s = some v → s.accepts v = true ∧ v.css? = none) →
      ∀ validate : Bool,
        compile ⟨[r]⟩ ⟨.compact, validate⟩ = .ok (r.selector ++ "{}") ∧
        compile ⟨[r]⟩ ⟨.pretty, validate⟩ = .ok (r.selector ++ " {}\n") := by
  refine ⟨fun v => Value.css?_eq_none_iff, fun sheet drop h _ _ options sink => ?_,
    fun r hselector hcustom h validate => ?_⟩
  · have houtcome : ((sheet.without drop).blocks options).outcome =
        (sheet.blocks options).outcome :=
      Rule.outcome_blocksFrom_without (fun i r hr s v => h i r s v hr) 0 options
    refine ⟨?_, writeTo_congr_of_outcome houtcome sink⟩
    rw [compile_eq_map_render, compile_eq_map_render, houtcome]
  · have hblock (format : Format) :=
      Rule.outcome_block_of_omits h hselector hcustom ⟨format, validate⟩ 0
    rw [compile_singleton_of_outcome (hblock .compact), Block.render_compact_of_nil,
      compile_singleton_of_outcome (hblock .pretty), Block.render_pretty_of_nil]
    exact ⟨rfl, rfl⟩

/-- Two omitted values in a rule, which is empty without them, and one in a rule that is refused. -/
theorem omitted_as_never_assigned_refused :
    ∃ (r r' : Rule) (drop : Nat → Slot → Bool),
      r.props.entries.map Prod.snd = [.border ⟨none, none, some (.named " ")⟩, .color (.hex " ##")] ∧
      r'.props.entries.map Prod.snd = [.raw "", .border {}] ∧
      ((without ⟨[r, r']⟩ drop).rules.map fun r => r.props.entries.map Prod.snd) =
        [[], [.border {}]] ∧
      compile ⟨[r]⟩ .pretty = .ok "a {}\n" ∧
      compile ⟨[r, r']⟩ {} = .error (.kindMismatch .width .border) ∧
      compile (without ⟨[r, r']⟩ drop) {} = .error (.kindMismatch .width .border) := by
  let r : Rule := ⟨"a", .ofList [(.color, .color (.hex " ##")),
    (.border, .border ⟨none, none, some (.named " ")⟩)], []⟩
  let r' : Rule := ⟨"b", .ofList [(.width, .border {}), (.display, .raw "")], []⟩
  let drop (i : Nat) (s : Slot) : Bool := i == 0 || s == .display
  have hr : ∀ (s : Slot) (v : Value), r.props.get? s = some v →
      s.accepts v = true ∧ v.css? = none := by
    intro s v hv
    have hmem : (s, v) ∈ [(.border, .border ⟨none, none, some (.named " ")⟩),
      (.color, .color (.hex " ##"))] := PropSet.get?_eq_some_iff.mp hv
    rcases List.mem_pair.mp hmem with h | h <;> cases h <;> exact ⟨rfl, rfl⟩
  have hdrop : ∀ (i : Nat) (q : Rule) (s : Slot) (v : Value), [r, r'][i]? = some q →
      drop i s = true → q.props.get? s = some v → s.accepts v = true ∧ v.css? = none := by
    rintro (_ | _ | i) q s v hq hs hv
    · obtain rfl := Option.some.inj hq
      exact hr s v hv
    · obtain rfl := Option.some.inj hq
      obtain rfl : s = .display := by simpa [drop] using hs
      obtain rfl := Option.some.inj hv
      exact ⟨rfl, rfl⟩
    · cases hq
  have herror : compile ⟨[r, r']⟩ {} = .error (.kindMismatch .width .border) := by
    decide +kernel
  have hsame := (omitted_as_never_assigned.2.1 ⟨[r, r']⟩ drop hdrop {} {}).1
  have hselector : Text.isBlank "a" = false := rfl
  exact ⟨r, r', drop, rfl, rfl, rfl, (omitted_as_never_assigned.2.2 r hselector rfl hr true).2,
    herror, hsame.trans herror⟩

end Sheet

end Cascade
