import Cascade.Proofs.Fault
import Cascade.Proofs.Omission

/-! # The log of a compilation

What a compilation reports, and in which order: its beginning, then the slots that are left out of
the rules, up to the first part at fault, and in the end either the rule at fault or, if the output
has taken all of the text, the number of declarations (`Sheet.log_accounts`). Every assignment that
is not of a border is either declared or reported.

Main statements:
- `Rule.events_block_of_ok`, `Rule.events_block_of_fault`: what one rule reports.
- `Rule.events_blocksFrom_of_ok`, `Rule.events_blocksFrom_of_fault`: what some rules report.
- `Rule.length_declarations_add`: what a rule declares and reports is what it assigns. -/

namespace Cascade

/-! ### Lines -/

/-- What is seen of an event. -/
structure Line where
  level : Level
  message : String
  fields : List (String × String)
  deriving DecidableEq, Repr

/-- The line of an event. -/
def Event.line (e : Event) : Line := ⟨e.level, e.message, e.fields⟩

/-- The lines of a compilation. -/
def Compilation.log {σ : Type} (c : Compilation σ) : List Line := c.events.map Event.line

/-! ### Events of traced computations -/

namespace Traced

variable {α β : Type} {x : Traced α} {f : α → Traced β}

theorem events_bind_of_ok {a : α} (h : x.outcome = .ok a) :
    (x >>= f).events = x.events ++ (f a).events := by
  obtain ⟨es, outcome⟩ := x
  obtain rfl : outcome = .ok a := h
  rfl

theorem events_bind_of_error {e : Error} (h : x.outcome = .error e) :
    (x >>= f).events = x.events := by
  obtain ⟨es, outcome⟩ := x
  obtain rfl : outcome = .error e := h
  rfl

theorem events_bind_of_silent (h : ∀ a, (f a).events = []) : (x >>= f).events = x.events := by
  cases hx : x.outcome with
  | error e => exact events_bind_of_error hx
  | ok a => rw [events_bind_of_ok hx, h, List.append_nil]

theorem events_map (g : α → β) : (g <$> x).events = x.events := by
  obtain ⟨es, e | a⟩ := x
  · rfl
  · exact List.append_nil es

theorem events_reportError_of_error {e : Error} (h : x.outcome = .error e)
    (event : Error → Event) : (x.reportError event).events = x.events ++ [event e] := by
  unfold reportError
  rw [h]

theorem events_reportError_of_ok {a : α} (h : x.outcome = .ok a) (event : Error → Event) :
    (x.reportError event).events = x.events := by
  unfold reportError
  rw [h]

theorem events_mapM_of_ok {xs : List α} (h : ∀ x ∈ xs, ∃ b, (f x).outcome = .ok b) :
    (xs.mapM f).events = xs.flatMap fun x => (f x).events := by
  induction xs with
  | nil => rfl
  | cons x xs ih =>
    obtain ⟨⟨b, hb⟩, hxs⟩ := List.forall_mem_cons.mp h
    rw [List.mapM_cons, events_bind_of_ok hb, bind_pure_comp, events_map, ih hxs,
      List.flatMap_cons]

/-- **The events of a list of computations are those up to the first that fails.** -/
theorem events_mapM_of_error {before after : List α} {x : α} {e : Error}
    (h : ∀ y ∈ before, ∃ b, (f y).outcome = .ok b) (hx : (f x).outcome = .error e) :
    ((before ++ x :: after).mapM f).events =
      (before.flatMap fun y => (f y).events) ++ (f x).events := by
  induction before with
  | nil =>
    rw [List.nil_append, List.mapM_cons, events_bind_of_error hx]
    rfl
  | cons y before ih =>
    obtain ⟨⟨b, hb⟩, hbefore⟩ := List.forall_mem_cons.mp h
    rw [List.cons_append, List.mapM_cons, events_bind_of_ok hb, bind_pure_comp, events_map,
      ih hbefore, List.flatMap_cons, List.append_assoc]

end Traced

/-! ### What a slot reports -/

/-- The slot stands for one property and takes the value, but the value has no text. -/
def Slot.leavesOut (s : Slot) (v : Value) : Bool := s.accepts v && !s.isComposite && v.css?.isNone

theorem Slot.leavesOut_eq_false_of_error {s : Slot} {v : Value} {e : Error}
    (h : s.resolve v = .error e) : s.leavesOut v = false := by
  by_contra hs
  have hs : s.leavesOut v = true := by simpa using hs
  simp only [leavesOut, Bool.and_eq_true, Option.isNone_iff_eq_none] at hs
  cases (resolve_eq_nil_iff.mpr ⟨hs.1.1, hs.2⟩).symm.trans h

theorem Slot.isEmpty_of_resolve {s : Slot} {v : Value} {ds : List Declaration}
    (h : s.resolve v = .ok ds) : (ds.isEmpty && !s.isComposite) = s.leavesOut v := by
  have haccepts := accepts_of_resolve h
  have hempty : ds.isEmpty = v.css?.isNone := by
    rw [Bool.eq_iff_iff, List.isEmpty_iff, Option.isNone_iff_eq_none]
    constructor
    · rintro rfl
      exact (resolve_eq_nil_iff.mp h).2
    · intro hv
      exact Except.ok.inj (h.symm.trans (resolve_eq_nil_iff.mpr ⟨haccepts, hv⟩))
  rw [leavesOut, haccepts, hempty, Bool.true_and, Bool.and_comm]

/-- **A slot reports that it is left out, and nothing else.** -/
theorem Slot.events_declare (s : Slot) (v : Value) :
    (s.declare v).events = if s.leavesOut v then [.omitted s] else [] := by
  cases h : s.resolve v with
  | error e =>
    rw [leavesOut_eq_false_of_error h, declare, Traced.events_bind_of_error h]
    rfl
  | ok ds =>
    rw [declare, Traced.events_bind_of_ok h, ← isEmpty_of_resolve h]
    cases ds.isEmpty && !s.isComposite <;> rfl

/-! ### What a rule reports -/

theorem Part.slot_lt_slot {s t : Slot} : slot s < slot t ↔ s < t := by
  rw [← not_le, slot_le_slot, not_not]

namespace Rule

/-- The slots that are left out of a rule, in their order. -/
def leftOut (r : Rule) : List Slot :=
  (r.props.entries.filter fun e => e.1.leavesOut e.2).map Prod.fst

/-- The slots that are left out of a rule and come before a part of it. -/
def leftOutBefore (r : Rule) (p : Part) : List Slot := r.leftOut.filter fun s => Part.slot s < p

variable {r : Rule} {options : Options} {index : Nat} {e : Error}

theorem leftOutBefore_selector : r.leftOutBefore .selector = [] := by
  rw [leftOutBefore, List.filter_eq_nil_iff]
  intro s _
  simpa using Part.selector_le (.slot s)

theorem leftOutBefore_custom (i : Nat) : r.leftOutBefore (.custom i) = r.leftOut := by
  rw [leftOutBefore, List.filter_eq_self]
  intro s _
  exact decide_eq_true (lt_of_le_of_ne (Part.slot_le_custom s i) nofun)

theorem leftOutBefore_slot {before after : List (Slot × Value)} {s : Slot} {v : Value}
    (h : r.props.entries = before ++ (s, v) :: after) : r.leftOutBefore (.slot s) =
      (before.filter fun e => e.1.leavesOut e.2).map Prod.fst := by
  have hsorted := r.props.sorted
  rw [h, List.pairwise_append, List.pairwise_cons] at hsorted
  obtain ⟨-, ⟨hafter, -⟩, hbefore⟩ := hsorted
  rw [leftOutBefore, leftOut, h, List.filter_append, List.map_append, List.filter_append]
  have hkept : ∀ t ∈ (before.filter fun e => e.1.leavesOut e.2).map Prod.fst,
      decide (Part.slot t < .slot s) = true := by
    intro t ht
    obtain ⟨e, he, rfl⟩ := List.mem_map.mp ht
    have hlt : e.1 < s := hbefore e (List.mem_filter.mp he).1 (s, v) List.mem_cons_self
    exact decide_eq_true (Part.slot_lt_slot.mpr hlt)
  have hdropped : ∀ t ∈ (((s, v) :: after).filter fun e => e.1.leavesOut e.2).map Prod.fst,
      ¬ decide (Part.slot t < .slot s) = true := by
    intro t ht
    obtain ⟨e, he, rfl⟩ := List.mem_map.mp ht
    rw [decide_eq_true_iff, Part.slot_lt_slot]
    rcases List.mem_cons.mp (List.mem_filter.mp he).1 with rfl | he
    · exact Slot.lt_irrefl s
    · exact fun hlt => Slot.lt_irrefl s (Slot.lt_trans (hafter e he) hlt)
  rw [List.filter_eq_self.mpr hkept, List.filter_eq_nil_iff.mpr hdropped, List.append_nil]

theorem flatMap_events_declare (es : List (Slot × Value)) :
    (es.flatMap fun e => (e.1.declare e.2).events) =
      ((es.filter fun e => e.1.leavesOut e.2).map Prod.fst).map .omitted := by
  induction es with
  | nil => rfl
  | cons e es ih =>
    rw [List.flatMap_cons, ih, Slot.events_declare, List.filter_cons]
    split <;> rfl

theorem events_typed_of_ok {typed : List Declaration} (h : r.typed.outcome = .ok typed) :
    r.typed.events = r.leftOut.map .omitted := by
  obtain ⟨dss, hdss, -⟩ := exists_flatten_of_typed h
  have hok : ∀ e ∈ r.props.entries, ∃ ds, (e.1.declare e.2).outcome = .ok ds := by
    simp only [Slot.outcome_declare]
    exact Outcome.exists_ok_of_mapM hdss
  rw [Rule.typed, Traced.events_map, Traced.events_mapM_of_ok hok, flatMap_events_declare, leftOut]

/-- **A rule refused for a slot has reported those before it.** -/
theorem events_typed_of_fault {s : Slot} (h : r.Fault options index (.slot s) e)
    (hmin : ∀ t e', r.Fault options index (.slot t) e' → Part.slot s ≤ Part.slot t) :
    r.typed.events = (r.leftOutBefore (.slot s)).map .omitted := by
  obtain ⟨i, v, hi, hv⟩ := h.entry
  obtain ⟨before, after, hentries⟩ := List.append_of_mem (List.mem_of_getElem? hi)
  have hsorted := r.props.sorted
  rw [hentries, List.pairwise_append] at hsorted
  have hok : ∀ f ∈ before, ∃ ds, (f.1.declare f.2).outcome = .ok ds := by
    intro f hf
    rw [Slot.outcome_declare]
    cases hr : f.1.resolve f.2 with
    | ok ds => exact ⟨ds, rfl⟩
    | error e' =>
      -- this would be a fault before the first one
      have hget : r.props.get? f.1 = some f.2 := by
        rw [PropSet.get?_eq_some_iff, hentries]
        exact List.mem_append_left _ hf
      have hle := hmin f.1 e' (.slot hget (Slot.resolve_eq_error_iff.mp hr))
      exact absurd (hsorted.2.2 f hf (s, v) List.mem_cons_self) (Part.slot_le_slot.mp hle)
  have herror : (s.declare v).outcome = .error e := by rw [Slot.outcome_declare, hv]
  have hevents : (s.declare v).events = [] := by
    rw [Slot.events_declare, Slot.leavesOut_eq_false_of_error hv, if_neg Bool.false_ne_true]
  rw [Rule.typed, Traced.events_map, hentries, Traced.events_mapM_of_error hok herror,
    flatMap_events_declare, hevents, List.append_nil, leftOutBefore_slot hentries]

theorem events_block_of_selector {u : Unit} (h : r.requireSelector index = .ok u) :
    (r.block options index).events = r.typed.events := by
  unfold block
  rw [Traced.events_bind_of_ok h]
  refine Traced.events_bind_of_silent fun typed => ?_
  -- checking the names reports nothing
  cases options.validateNames with
  | false => rfl
  | true => exact Traced.events_bind_of_silent fun _ => rfl

/-- **A rule that is not refused has reported all the slots that are left out of it.** -/
theorem events_block_of_ok {b : Block} (h : (r.block options index).outcome = .ok b) :
    (r.block options index).events = r.leftOut.map .omitted := by
  obtain ⟨typed, htyped, -⟩ := exists_typed_of_outcome_block h
  rw [outcome_block] at h
  obtain ⟨_, hselector, -⟩ := Outcome.bind_eq_ok_iff.mp h
  rw [events_block_of_selector hselector, events_typed_of_ok htyped]

theorem exists_requireSelector_eq_ok {p : Part}
    (hmin : ∀ q e', r.Fault options index q e' → p ≤ q) (hp : p ≠ .selector) :
    ∃ u, r.requireSelector index = .ok u := by
  cases h : r.requireSelector index with
  | ok u => exact ⟨u, rfl⟩
  | error e =>
    have hle := hmin .selector e (requireSelector_eq_error_iff.mp h)
    exact absurd (le_antisymm hle (Part.selector_le p)) hp

theorem exists_typed_eq_ok {i : Nat}
    (hmin : ∀ q e', r.Fault options index q e' → Part.custom i ≤ q) :
    ∃ typed, r.typed.outcome = .ok typed := by
  cases h : r.typed.outcome with
  | ok typed => exact ⟨typed, rfl⟩
  | error e =>
    have hresolve : r.resolve = .error e := by
      rw [resolve_eq_map_typed, h]
      rfl
    obtain ⟨s, hs, -⟩ := resolve_of_error options index hresolve
    exact absurd (le_antisymm (hmin _ e hs) (Part.slot_le_custom s i)) (by simp)

/-- **A refused rule has reported the slots that are left out before its first fault.** -/
theorem events_block_of_fault {p : Part} (h : r.Fault options index p e)
    (hmin : ∀ q e', r.Fault options index q e' → p ≤ q) :
    (r.block options index).events = (r.leftOutBefore p).map .omitted := by
  cases p with
  | selector =>
    unfold block
    rw [Traced.events_bind_of_error (requireSelector_eq_error_iff.mpr h), leftOutBefore_selector]
    rfl
  | slot s =>
    obtain ⟨u, hselector⟩ := exists_requireSelector_eq_ok hmin nofun
    rw [events_block_of_selector hselector, events_typed_of_fault h fun t => hmin (.slot t)]
  | custom i =>
    obtain ⟨u, hselector⟩ := exists_requireSelector_eq_ok hmin nofun
    obtain ⟨typed, htyped⟩ := exists_typed_eq_ok hmin
    rw [events_block_of_selector hselector, events_typed_of_ok htyped, leftOutBefore_custom]

/-! ### What some rules report -/

theorem events_blocksFrom_of_ok {start : Nat} {rules : List Rule} {blocks : List Block}
    (h : (blocksFrom start rules options).outcome = .ok blocks) :
    (blocksFrom start rules options).events = (rules.flatMap leftOut).map .omitted := by
  induction rules generalizing start blocks with
  | nil => rfl
  | cons r rules ih =>
    rw [outcome_blocksFrom_cons] at h
    obtain ⟨b, hb, h⟩ := Outcome.bind_eq_ok_iff.mp h
    obtain ⟨bs, hbs, -⟩ := Outcome.bind_eq_ok_iff.mp h
    have hreported := outcome_reportedBlock.trans hb
    rw [blocksFrom_cons, Traced.events_bind_of_ok hreported,
      Traced.events_bind_of_silent fun _ => rfl, ih hbs, reportedBlock,
      Traced.events_reportError_of_ok hb, events_block_of_ok hb, List.flatMap_cons, List.map_append]

theorem events_blocksFrom_of_fault {start : Nat} {before after : List Rule} {blocks : List Block}
    {p : Part} (hbefore : (blocksFrom start before options).outcome = .ok blocks)
    (h : r.Fault options (start + before.length) p e)
    (hmin : ∀ q e', r.Fault options (start + before.length) q e' → p ≤ q) :
    (blocksFrom start (before ++ r :: after) options).events =
      (before.flatMap leftOut ++ r.leftOutBefore p).map .omitted ++
        [.failed (start + before.length) r.selector e] := by
  have herror := outcome_block_eq_error_iff.mpr ⟨p, h, hmin⟩
  have hreported := outcome_reportedBlock.trans herror
  rw [blocksFrom_append, Traced.events_bind_of_ok hbefore, events_blocksFrom_of_ok hbefore,
    Traced.events_bind_of_silent fun _ => rfl, blocksFrom_cons,
    Traced.events_bind_of_error hreported, reportedBlock,
    Traced.events_reportError_of_error herror, events_block_of_fault h hmin, List.map_append,
    List.append_assoc]

end Rule

/-! ### What a rule declares and reports -/

/-- The texts of the parts of a value, if it is a border. -/
def Value.partTexts : Value → List String
  | border b => b.partTexts
  | _ => []

/-- **An assignment that is not of a border is declared once or reported**, and a border is declared
in its parts. -/
theorem Slot.length_resolve_add {s : Slot} {v : Value} {ds : List Declaration}
    (h : s.resolve v = .ok ds) : ds.length + (if s.leavesOut v then 1 else 0) =
      (if s ≠ .border then 1 else 0) + v.partTexts.length := by
  rw [← isEmpty_of_resolve h]
  by_cases hs : s.isComposite = true
  · obtain ⟨b, rfl, hb⟩ := resolve_eq_border h hs
    have hborder : s = .border := by
      revert hs
      cases s <;> decide
    have hlength : ds.length = b.partTexts.length := by
      rw [← Border.map_value_declarations hb, List.length_map]
    rw [hs, hlength, hborder]
    simp [Value.partTexts]
  · have hne : s ≠ .border := by
      rintro rfl
      exact hs rfl
    have hparts : v.partTexts = [] := by
      have hkind := isComposite_eq_of_accepts (accepts_of_resolve h)
      cases v with
      | border b => exact absurd hkind (by simp [hs, Value.kind])
      | keyword | raw | length | color => rfl
    rw [resolve_eq_plain h (eq_false_of_ne_true hs), plain, hparts]
    cases v.css? <;> simp [hs, hne]

namespace Rule

theorem length_flatten_add {es : List (Slot × Value)} {dss : List (List Declaration)}
    (h : es.mapM (fun e => e.1.resolve e.2) = .ok dss) :
    dss.flatten.length + (es.filter fun e => e.1.leavesOut e.2).length =
      (es.filter (·.1 ≠ .border)).length + (es.flatMap (·.2.partTexts)).length := by
  rw [Outcome.mapM_eq_ok_iff] at h
  induction h with
  | nil => rfl
  | @cons e ds es dss hds _ ih =>
    have hhead := Slot.length_resolve_add hds
    simp only [← List.countP_eq_length_filter] at ih ⊢
    rw [List.flatten_cons, List.length_append, List.countP_cons, List.countP_cons,
      List.flatMap_cons, List.length_append]
    simp only [decide_eq_true_eq]
    omega

/-- **What a rule declares and reports is what it assigns**: the slots but for the border, the parts
of the border that have a text, and its own declarations. -/
theorem length_declarations_add {r : Rule} {b : Block} (h : r.resolve = .ok b) :
    b.declarations.length + r.leftOut.length = (r.props.entries.filter (·.1 ≠ .border)).length +
      (r.props.entries.flatMap (·.2.partTexts)).length + r.custom.length := by
  obtain ⟨dss, hdss, hb⟩ := Outcome.bind_eq_ok_iff.mp h
  obtain rfl := Except.ok.inj hb
  have hlength := length_flatten_add hdss
  rw [leftOut, List.length_map, List.length_append]
  omega

end Rule

namespace Sheet

variable {sheet : Sheet} {options : Options}

theorem countDeclarations_add {blocks : List Block} (h : sheet.resolve = .ok blocks) :
    Block.countDeclarations blocks + (sheet.rules.flatMap Rule.leftOut).length =
      (sheet.rules.flatMap fun r => r.props.entries.filter (·.1 ≠ .border)).length +
        (sheet.rules.flatMap fun r => r.props.entries.flatMap (·.2.partTexts)).length +
          (sheet.rules.flatMap Rule.custom).length := by
  rw [resolve, Outcome.mapM_eq_ok_iff] at h
  unfold Block.countDeclarations
  generalize sheet.rules = rules at h
  induction h with
  | nil => rfl
  | cons hb _ ih =>
    have hrule := Rule.length_declarations_add hb
    simp only [List.flatMap_cons, List.length_append] at ih ⊢
    omega

/-! ### The log -/

/-- The error is that of the part of the rule with the index, which is the first part at fault of the
first rule at fault. -/
structure FaultAt (sheet : Sheet) (options : Options) (i : Nat) (r : Rule) (p : Part) (e : Error) :
    Prop where
  rule : sheet.rules[i]? = some r
  fault : r.Fault options i p e
  first : ∀ q e', r.Fault options i q e' → p ≤ q
  earlier : ∀ j < i, ∀ r' : Rule, sheet.rules[j]? = some r' → ¬ r'.Faulty options j

theorem firstFault_iff_exists_faultAt {e : Error} :
    sheet.FirstFault options e ↔ ∃ i r p, sheet.FaultAt options i r p e := by
  constructor
  · rintro ⟨i, r, hr, ⟨p, hp, hmin⟩, hearlier⟩
    exact ⟨i, r, p, hr, hp, hmin, hearlier⟩
  · rintro ⟨i, r, p, h⟩
    exact ⟨i, r, h.rule, ⟨p, h.fault, h.first⟩, h.earlier⟩

theorem exists_outcome_blocks_eq_ok (h : ¬ sheet.Faulty options) :
    ∃ blocks, (sheet.blocks options).outcome = .ok blocks := by
  cases ho : (sheet.blocks options).outcome with
  | ok blocks => exact ⟨blocks, rfl⟩
  | error e => exact absurd (exists_firstFault_iff.mp ⟨e, outcome_blocks_eq_error_iff.mp ho⟩) h

/-- The rules before the one at fault have blocks. -/
theorem FaultAt.exists_blocks_take {i : Nat} {r : Rule} {p : Part} {e : Error}
    (h : sheet.FaultAt options i r p e) :
    sheet.rules = sheet.rules.take i ++ r :: sheet.rules.drop (i + 1) ∧
      0 + (sheet.rules.take i).length = i ∧
      ∃ blocks, (Rule.blocksFrom 0 (sheet.rules.take i) options).outcome = .ok blocks := by
  obtain ⟨hi, hr⟩ := List.getElem?_eq_some_iff.mp h.rule
  have hlength : 0 + (sheet.rules.take i).length = i := by
    rw [Nat.zero_add, List.length_take, Nat.min_eq_left (Nat.le_of_lt hi)]
  have hrules : sheet.rules = sheet.rules.take i ++ r :: sheet.rules.drop (i + 1) := by
    rw [← hr, List.getElem_cons_drop, List.take_append_drop]
  have hbefore : ¬ (Sheet.mk (sheet.rules.take i)).Faulty options := by
    rintro ⟨j, r', hr', hf⟩
    rw [List.getElem?_take] at hr'
    split_ifs at hr' with hj
    exact h.earlier j hj r' hr' hf
  exact ⟨hrules, hlength, exists_outcome_blocks_eq_ok hbefore⟩

theorem FaultAt.events_blocks {i : Nat} {r : Rule} {p : Part} {e : Error}
    (h : sheet.FaultAt options i r p e) : (sheet.blocks options).events =
      ((sheet.rules.take i).flatMap Rule.leftOut ++ r.leftOutBefore p).map .omitted ++
        [.failed i r.selector e] := by
  obtain ⟨hrules, hlength, blocks, hblocks⟩ := h.exists_blocks_take
  have hevents := @Rule.events_blocksFrom_of_fault r options e 0 (sheet.rules.take i)
    (sheet.rules.drop (i + 1)) blocks p hblocks (hlength.symm ▸ h.fault) (hlength.symm ▸ h.first)
  rw [hlength, ← hrules] at hevents
  exact hevents

variable {σ : Type} [Output σ] {sink : σ}

theorem events_writeTo_of_error {e : Error} (h : (sheet.blocks options).outcome = .error e) :
    (sheet.writeTo options sink).events =
      .compiling sheet.size options.format :: (sheet.blocks options).events := by
  unfold writeTo
  simp only [h]

theorem events_writeTo_of_ok {blocks : List Block}
    (h : (sheet.blocks options).outcome = .ok blocks) : (sheet.writeTo options sink).events =
      .compiling sheet.size options.format :: (sheet.rules.flatMap Rule.leftOut).map .omitted ++
        if (Output.writeAll sink (options.format.chunks blocks)).2 then
          [.compiled sheet.size (Block.countDeclarations blocks)] else [] := by
  have hsize : blocks.length = sheet.size := length_of_outcome_blocks h
  have hevents : (sheet.blocks options).events = (sheet.rules.flatMap Rule.leftOut).map .omitted :=
    Rule.events_blocksFrom_of_ok h
  unfold writeTo
  simp only [h, hsize, hevents]
  rcases Output.writeAll sink (options.format.chunks blocks) with ⟨after, _ | _⟩ <;> simp

theorem countP_trace_writeTo {blocks : List Block}
    (h : (sheet.blocks options).outcome = .ok blocks) :
    (sheet.writeTo options sink).events.countP (·.level = .trace) =
      (sheet.rules.flatMap Rule.leftOut).length := by
  rw [events_writeTo_of_ok h]
  generalize sheet.rules.flatMap Rule.leftOut = slots
  have homitted : (slots.map Event.omitted).countP (·.level = .trace) = slots.length := by
    rw [List.countP_map]
    exact List.countP_eq_length.mpr fun s _ => rfl
  rw [List.cons_append, List.countP_cons, List.countP_append, homitted]
  split <;> simp [Event.level]

/-- **The log of a compilation.** It says how many rules there are. Then it names the slots that are
left out of the rules before the first one at fault, and those of this rule that come before its
first part at fault, and ends with the rule and the error. Without a fault it names all slots that
are left out and, if the output takes all of the text, ends with the number of declarations. These
and the slots that it names are together as many as the rules assign slots but for the border, parts
of borders that have a text, and declarations of their own. -/
theorem log_accounts (sheet : Sheet) (options : Options) (sink : σ) :
    (∃ (i : Nat) (r : Rule) (p : Part) (e : Error), sheet.FaultAt options i r p e ∧
      (sheet.writeTo options sink).result = .error e ∧
      (sheet.writeTo options sink).log =
        ⟨.debug, "compiling stylesheet",
          [("rules", toString sheet.size), ("format", options.format.text)]⟩ ::
        ((sheet.rules.take i).flatMap Rule.leftOut ++ r.leftOutBefore p).map
          (fun s => ⟨.trace, "omitting empty value", [("property", s.name)]⟩) ++
        [⟨.warn, "rule failed to compile",
          [("index", toString i), ("selector", r.selector), ("error", e.message)]⟩]) ∨
    (¬ sheet.Faulty options ∧ ∃ blocks, sheet.resolve = .ok blocks ∧
      (sheet.writeTo options sink).result =
        (if (Output.writeAll sink (options.format.chunks blocks)).2 then .ok ()
          else .error .refused) ∧
      (sheet.writeTo options sink).log =
        ⟨.debug, "compiling stylesheet",
          [("rules", toString sheet.size), ("format", options.format.text)]⟩ ::
        (sheet.rules.flatMap Rule.leftOut).map
          (fun s => ⟨.trace, "omitting empty value", [("property", s.name)]⟩) ++
        (if (Output.writeAll sink (options.format.chunks blocks)).2 then
          [⟨.debug, "compiled stylesheet", [("rules", toString sheet.size),
            ("declarations", toString (Block.countDeclarations blocks))]⟩] else []) ∧
      Block.countDeclarations blocks +
        (sheet.writeTo options sink).log.countP (·.level = .trace) =
          (sheet.rules.flatMap fun r => r.props.entries.filter (·.1 ≠ .border)).length +
            (sheet.rules.flatMap fun r => r.props.entries.flatMap (·.2.partTexts)).length +
              (sheet.rules.flatMap Rule.custom).length) := by
  cases h : (sheet.blocks options).outcome with
  | error e =>
    have hfirst := outcome_blocks_eq_error_iff.mp h
    obtain ⟨i, r, p, hfault⟩ := firstFault_iff_exists_faultAt.mp hfirst
    refine .inl ⟨i, r, p, e, hfault, (writeTo_of_error h).1, ?_⟩
    rw [Compilation.log, events_writeTo_of_error h, hfault.events_blocks, List.map_cons,
      List.map_append, List.map_map]
    rfl
  | ok blocks =>
    have hresolve := resolve_of_outcome_blocks h
    refine .inr ⟨not_faulty_of_outcome_blocks h, blocks, hresolve, (writeTo_of_ok h).2, ?_, ?_⟩
    · rw [Compilation.log, events_writeTo_of_ok h, List.map_append, List.map_cons, List.map_map]
      split <;> rfl
    · have htrace : (sheet.writeTo options sink).events.countP (·.level = .trace) =
          (sheet.rules.flatMap Rule.leftOut).length := countP_trace_writeTo h
      rw [Compilation.log, List.countP_map, ← countDeclarations_add hresolve, ← htrace]
      rfl

/-- The border without parts is not named, nor is the slot after the one at fault. -/
example : (writeTo ⟨[⟨"a", .ofList [(.cursor, .raw " "), (.border, .border {})], []⟩,
    ⟨"b", .ofList [(.width, .keyword ""), (.height, .border {}), (.color, .keyword "")], []⟩]⟩
      {} {}).log =
    [⟨.debug, "compiling stylesheet", [("rules", "2"), ("format", "Compact")]⟩,
      ⟨.trace, "omitting empty value", [("property", "cursor")]⟩,
      ⟨.trace, "omitting empty value", [("property", "color")]⟩,
      ⟨.warn, "rule failed to compile", [("index", "1"), ("selector", "b"),
        ("error", "Type mismatch for property 'height': expected length, found border")]⟩] := by
  decide +kernel

end Sheet

end Cascade
