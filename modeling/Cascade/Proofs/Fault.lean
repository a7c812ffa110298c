import Cascade.Proofs.Outcome
import Cascade.PropSet.Lemmas
import Mathlib.Data.Prod.Lex

/-! # Faults

What can be wrong with a rule, said for each of its parts on its own: its selector is blank, a slot
is assigned a value that it does not take or whose magnitude is not finite, or a declaration of its
own has a name that is not an identifier. The parts of a rule come in an order: the selector, the
slots in their order, the rule's own declarations in theirs.

A sheet is refused exactly if one of its rules is at fault, with the error of the first part at
fault of the first such rule, and then the output is left alone
(`Sheet.writeTo_refuses_first_fault`). -/

namespace Cascade

/-! ### Parts of a rule -/

/-- A part of a rule that can be at fault. -/
inductive Part where
  | selector
  | slot (s : Slot)
  | custom (i : Nat)
  deriving DecidableEq, Repr

namespace Part

/-- The rank of a part in the order of the parts. -/
def rank : Part → Nat ×ₗ Nat
  | selector => toLex (0, 0)
  | slot s => toLex (1, s.index)
  | custom i => toLex (2, i)

theorem rank_injective : Function.Injective rank := by
  intro p q h
  cases p <;> cases q <;> simp only [rank, EmbeddingLike.apply_eq_iff_eq, Prod.mk.injEq] at h
  case selector.selector => rfl
  case slot.slot s t => rw [Slot.index_injective h.2]
  case custom.custom i j => rw [h.2]
  all_goals omega

instance : LinearOrder Part := LinearOrder.lift' rank rank_injective

theorem le_iff {p q : Part} : p ≤ q ↔ p.rank ≤ q.rank := Iff.rfl

theorem selector_le (p : Part) : selector ≤ p := by
  cases p <;> simp [le_iff, rank, Prod.Lex.toLex_le_toLex]

theorem slot_le_slot {s t : Slot} : slot s ≤ slot t ↔ ¬ t < s := by
  simp [le_iff, rank, Prod.Lex.toLex_le_toLex, Slot.lt_iff]

theorem slot_le_custom (s : Slot) (i : Nat) : slot s ≤ custom i := by
  simp [le_iff, rank, Prod.Lex.toLex_le_toLex]

theorem custom_le_custom {i j : Nat} : custom i ≤ custom j ↔ i ≤ j := by
  simp [le_iff, rank, Prod.Lex.toLex_le_toLex]

end Part

/-! ### Faults of an assignment -/

/-- What can be wrong with an assignment, and the error for it. -/
inductive Slot.Fault (s : Slot) : Value → Error → Prop where
  /-- The slot does not take values of the kind. -/
  | kind {v : Value} (hk : s.kind.accepts v.kind = false) : s.Fault v (.kindMismatch s v.kind)
  /-- The slot takes a length and the magnitude of this one is not finite. -/
  | length {l : Length} {defect : NonFinite} (hk : s.kind.accepts .length = true)
      (hm : l.unit.hasMagnitude = true) (hd : l.number.nonFinite? = some defect) :
      s.Fault (.length l) (.notFinite s defect)
  /-- The slot takes a border and the magnitude of the width of this one is not finite. -/
  | width {b : Border} {l : Length} {defect : NonFinite} (hk : s.kind.accepts .border = true)
      (hl : b.width? = some l) (hm : l.unit.hasMagnitude = true)
      (hd : l.number.nonFinite? = some defect) :
      s.Fault (.border b) (.notFinite .borderWidth defect)

theorem Length.nonFinite?_eq_some_iff {l : Length} {defect : NonFinite} :
    l.nonFinite? = some defect ↔
      l.unit.hasMagnitude = true ∧ l.number.nonFinite? = some defect := by
  unfold nonFinite? magnitude?
  split <;> simp_all

theorem Length.requireFinite_eq_error_iff {l : Length} {s : Slot} {e : Error} :
    l.requireFinite s = .error e ↔ ∃ defect, l.unit.hasMagnitude = true ∧
      l.number.nonFinite? = some defect ∧ e = .notFinite s defect := by
  unfold requireFinite
  cases h : l.nonFinite? with
  | none =>
    constructor
    · intro he
      exact nomatch he
    · rintro ⟨defect, hm, hd, -⟩
      rw [Length.nonFinite?_eq_some_iff.mpr ⟨hm, hd⟩] at h
      exact nomatch h
  | some defect =>
    obtain ⟨hm, hd⟩ := Length.nonFinite?_eq_some_iff.mp h
    constructor
    · intro he
      exact ⟨defect, hm, hd, (Except.error.inj he).symm⟩
    · rintro ⟨defect', -, hd', rfl⟩
      rw [Option.some.inj (hd.symm.trans hd')]

theorem Border.declarations_eq_error_iff {b : Border} {e : Error} :
    b.declarations = .error e ↔
      ∃ l, b.width? = some l ∧ l.requireFinite .borderWidth = .error e := by
  have hdecl : b.declarations = .error e ↔ b.widthDeclarations = .error e := by
    rw [declarations, Outcome.bind_pure_eq_error_iff]
  rw [hdecl, widthDeclarations]
  cases b.width? with
  | none => simp
  | some l =>
    rw [Outcome.bind_pure_eq_error_iff]
    simp

namespace Slot

variable {s : Slot} {e : Error}

theorem fault_iff_of_not_accepts {v : Value} (hk : ¬ s.accepts v = true) :
    s.Fault v e ↔ e = .kindMismatch s v.kind := by
  constructor
  · rintro (_ | ⟨hk', -, -⟩ | ⟨hk', -, -, -⟩)
    · rfl
    · exact absurd hk' hk
    · exact absurd hk' hk
  · rintro rfl
    exact .kind (by simpa [accepts] using hk)

theorem fault_length_iff {l : Length} (hk : s.accepts (.length l) = true) :
    s.Fault (.length l) e ↔ l.requireFinite s = .error e := by
  rw [Length.requireFinite_eq_error_iff]
  constructor
  · rintro (hk' | ⟨-, hm, hd⟩ | _)
    · exact absurd hk (by simp [accepts, hk'])
    · exact ⟨_, hm, hd, rfl⟩
  · rintro ⟨defect, hm, hd, rfl⟩
    exact .length hk hm hd

theorem fault_border_iff {b : Border} (hk : s.accepts (.border b) = true) :
    s.Fault (.border b) e ↔ b.declarations = .error e := by
  simp only [Border.declarations_eq_error_iff, Length.requireFinite_eq_error_iff]
  constructor
  · rintro (hk' | _ | ⟨-, hl, hm, hd⟩)
    · exact absurd hk (by simp [accepts, hk'])
    · exact ⟨_, hl, _, hm, hd, rfl⟩
  · rintro ⟨l, hl, defect, hm, hd, rfl⟩
    exact .width hk hl hm hd

/-- **A slot refuses the assignments at fault.** -/
theorem resolve_eq_error_iff {v : Value} : s.resolve v = .error e ↔ s.Fault v e := by
  unfold resolve
  by_cases hk : s.accepts v = true
  · rw [if_pos hk]
    cases v with
    | border b => exact (fault_border_iff hk).symm
    | length l =>
      rw [Outcome.bind_pure_eq_error_iff]
      exact (fault_length_iff hk).symm
    | keyword _ | raw _ | color _ =>
      constructor
      · intro h
        exact nomatch h
      · rintro ⟨hk'⟩
        exact absurd hk (by simp [accepts, hk'])
  · rw [if_neg hk, fault_iff_of_not_accepts hk, Except.error.injEq]
    exact eq_comm

end Slot

/-! ### Faults of a rule -/

theorem PropSet.index_lt_index {p : PropSet} {i j : Nat} {s t : Slot} {v w : Value}
    (hi : p.entries[i]? = some (s, v)) (hj : p.entries[j]? = some (t, w)) (h : s < t) : i < j := by
  obtain ⟨hi', hi⟩ := List.getElem?_eq_some_iff.mp hi
  obtain ⟨hj', hj⟩ := List.getElem?_eq_some_iff.mp hj
  by_contra hij
  rcases Nat.lt_or_eq_of_le (Nat.le_of_not_lt hij) with hji | rfl
  · have hts := List.pairwise_iff_getElem.mp p.sorted j i hj' hi' hji
    rw [hi, hj] at hts
    exact Slot.lt_irrefl s (Slot.lt_trans h hts)
  · rw [hi] at hj
    rw [(Prod.mk.inj hj).1] at h
    exact Slot.lt_irrefl t h

namespace Rule

/-- What can be wrong with the rule with an index, in which part, and the error for it. -/
inductive Fault (r : Rule) (options : Options) (index : Nat) : Part → Error → Prop where
  /-- The selector is blank. -/
  | selector (h : Text.isBlank r.selector = true) :
      r.Fault options index .selector (.blankSelector index)
  /-- The assignment to a slot is at fault. -/
  | slot {s : Slot} {v : Value} {e : Error} (h : r.props.get? s = some v) (hf : s.Fault v e) :
      r.Fault options index (.slot s) e
  /-- Names are checked and one of the rule's own declarations is not named by an identifier. -/
  | custom {i : Nat} {d : Declaration} (hv : options.validateNames = true)
      (h : r.custom[i]? = some d) (hn : Identifier.isValid d.name = false) :
      r.Fault options index (.custom i) (.invalidName d.name)

/-- Something is wrong with the rule. -/
def Faulty (r : Rule) (options : Options) (index : Nat) : Prop := ∃ p e, r.Fault options index p e

/-- The error is that of the first part at fault. -/
def FirstFault (r : Rule) (options : Options) (index : Nat) (e : Error) : Prop :=
  ∃ p, r.Fault options index p e ∧ ∀ q e', r.Fault options index q e' → p ≤ q

variable {r : Rule} {options : Options} {index : Nat} {e : Error}

theorem Fault.unique {p : Part} {e' : Error} (h : r.Fault options index p e)
    (h' : r.Fault options index p e') : e = e' := by
  cases h with
  | selector => cases h'; rfl
  | slot hv hf =>
    cases h' with
    | slot hv' hf' =>
      obtain rfl := Option.some.inj (hv.symm.trans hv')
      have heq := (Slot.resolve_eq_error_iff.mpr hf).symm.trans (Slot.resolve_eq_error_iff.mpr hf')
      exact Except.error.inj heq
  | custom _ hd _ =>
    cases h' with
    | custom _ hd' _ => rw [Option.some.inj (hd.symm.trans hd')]

theorem FirstFault.unique {e' : Error} (h : r.FirstFault options index e)
    (h' : r.FirstFault options index e') : e = e' := by
  obtain ⟨p, hp, hmin⟩ := h
  obtain ⟨q, hq, hmin'⟩ := h'
  obtain rfl : p = q := le_antisymm (hmin q e' hq) (hmin' p e hp)
  exact hp.unique hq

/-! ### The checks of a rule -/

theorem requireSelector_eq_error_iff :
    r.requireSelector index = .error e ↔ r.Fault options index .selector e := by
  unfold requireSelector
  constructor
  · intro h
    split at h
    · next hb =>
      rw [← Except.error.inj h]
      exact .selector hb
    · exact nomatch h
  · rintro ⟨hb⟩
    rw [if_pos hb]

theorem Fault.entry {s : Slot} (h : r.Fault options index (.slot s) e) :
    ∃ (i : Nat) (v : Value), r.props.entries[i]? = some (s, v) ∧ s.resolve v = .error e := by
  cases h with
  | slot hv hf =>
    obtain ⟨i, hi⟩ := List.getElem?_of_mem (PropSet.get?_eq_some_iff.mp hv)
    exact ⟨i, _, hi, Slot.resolve_eq_error_iff.mpr hf⟩

theorem resolve_of_error (options : Options) (index : Nat) (h : r.resolve = .error e) :
    ∃ s, r.Fault options index (.slot s) e ∧
      ∀ t e', r.Fault options index (.slot t) e' → Part.slot s ≤ Part.slot t := by
  rw [resolve, Outcome.bind_pure_eq_error_iff, Outcome.mapM_eq_error_iff] at h
  obtain ⟨i, ⟨s, v⟩, hi, hs, hok⟩ := h
  have hv : r.props.get? s = some v := PropSet.get?_eq_some_iff.mpr (List.mem_of_getElem? hi)
  refine ⟨s, .slot hv (Slot.resolve_eq_error_iff.mp hs), fun t e' ht => ?_⟩
  obtain ⟨j, w, hj, hw⟩ := ht.entry
  rw [Part.slot_le_slot]
  intro hts
  -- the assignments of earlier slots come before `i`, and those resolve
  obtain ⟨b, hb⟩ := hok j (PropSet.index_lt_index hj hi hts) _ hj
  cases hb.symm.trans hw

theorem not_fault_of_resolve {b : Block} (h : r.resolve = .ok b) (s : Slot) (e : Error) :
    ¬ r.Fault options index (.slot s) e := by
  intro hf
  obtain ⟨i, v, hi, hv⟩ := hf.entry
  obtain ⟨typed, htyped, -⟩ := Outcome.bind_eq_ok_iff.mp h
  obtain ⟨ds, hds⟩ := Outcome.exists_ok_of_mapM htyped _ (List.mem_of_getElem? hi)
  exact nomatch hds.symm.trans hv

theorem requireName_eq_error_iff {d : Declaration} :
    d.requireName = .error e ↔ Identifier.isValid d.name = false ∧ e = .invalidName d.name := by
  unfold Declaration.requireName
  cases Identifier.isValid d.name <;> simp [eq_comm]

theorem checkNames_eq_mapM (hv : options.validateNames = true) : r.checkNames options =
    r.custom.mapM Declaration.requireName >>= fun _ => pure () := by
  rw [checkNames, if_pos hv, requireNames, Outcome.forM_eq_mapM]

theorem checkNames_of_error (index : Nat) (h : r.checkNames options = .error e) :
    ∃ i, r.Fault options index (.custom i) e ∧
      ∀ j e', r.Fault options index (.custom j) e' → i ≤ j := by
  by_cases hv : options.validateNames = true
  · rw [checkNames_eq_mapM hv, Outcome.bind_pure_eq_error_iff, Outcome.mapM_eq_error_iff] at h
    obtain ⟨i, d, hi, hd, hok⟩ := h
    obtain ⟨hn, rfl⟩ := requireName_eq_error_iff.mp hd
    refine ⟨i, .custom hv hi hn, fun j e' hj => ?_⟩
    by_contra hji
    cases hj with
    | custom _ hj hn' =>
      obtain ⟨u, hu⟩ := hok j (Nat.lt_of_not_le hji) _ hj
      cases hu.symm.trans (requireName_eq_error_iff.mpr ⟨hn', rfl⟩)
  · rw [checkNames, if_neg hv] at h
    cases h

theorem not_fault_of_checkNames {u : Unit} (h : r.checkNames options = .ok u) (i : Nat)
    (e : Error) : ¬ r.Fault options index (.custom i) e := by
  rintro (_ | _ | ⟨hv, hi, hn⟩)
  rw [checkNames_eq_mapM hv] at h
  obtain ⟨us, hus, -⟩ := Outcome.bind_eq_ok_iff.mp h
  obtain ⟨u', hu'⟩ := Outcome.exists_ok_of_mapM hus _ (List.mem_of_getElem? hi)
  cases hu'.symm.trans (requireName_eq_error_iff.mpr ⟨hn, rfl⟩)

/-! ### The first fault of a rule -/

theorem not_fault_of_requireSelector {u : Unit} (h : r.requireSelector index = .ok u)
    (options : Options) (e : Error) : ¬ r.Fault options index .selector e := by
  intro hf
  exact nomatch h.symm.trans (requireSelector_eq_error_iff.mpr hf)

theorem firstFault_of_outcome_block (h : (r.block options index).outcome = .error e) :
    r.FirstFault options index e := by
  rw [outcome_block, Outcome.bind_eq_error_iff] at h
  rcases h with h | ⟨_, hsel, h⟩
  · exact ⟨.selector, requireSelector_eq_error_iff.mp h, fun q _ _ => Part.selector_le q⟩
  have hsel' := not_fault_of_requireSelector hsel options
  rcases Outcome.bind_eq_error_iff.mp h with h | ⟨b, hb, h⟩
  · obtain ⟨s, hs, hmin⟩ := resolve_of_error options index h
    refine ⟨.slot s, hs, fun q e' hq => ?_⟩
    cases q with
    | selector => exact absurd hq (hsel' e')
    | slot t => exact hmin t e' hq
    | custom i => exact Part.slot_le_custom s i
  · rw [Outcome.bind_pure_eq_error_iff] at h
    obtain ⟨i, hi, hmin⟩ := checkNames_of_error index h
    refine ⟨.custom i, hi, fun q e' hq => ?_⟩
    cases q with
    | selector => exact absurd hq (hsel' e')
    | slot t => exact absurd hq (not_fault_of_resolve hb t e')
    | custom j => exact Part.custom_le_custom.mpr (hmin j e' hq)

theorem not_faulty_of_outcome_block {b : Block} (h : (r.block options index).outcome = .ok b) :
    ¬ r.Faulty options index := by
  rw [outcome_block] at h
  obtain ⟨_, hsel, h⟩ := Outcome.bind_eq_ok_iff.mp h
  obtain ⟨c, hc, h⟩ := Outcome.bind_eq_ok_iff.mp h
  obtain ⟨_, hnames, -⟩ := Outcome.bind_eq_ok_iff.mp h
  rintro ⟨p, e, hp⟩
  cases p with
  | selector => exact not_fault_of_requireSelector hsel options e hp
  | slot s => exact not_fault_of_resolve hc s e hp
  | custom i => exact not_fault_of_checkNames hnames i e hp

theorem exists_outcome_block_iff :
    (∃ b, (r.block options index).outcome = .ok b) ↔ ¬ r.Faulty options index := by
  constructor
  · rintro ⟨b, h⟩
    exact not_faulty_of_outcome_block h
  · intro h
    cases ho : (r.block options index).outcome with
    | ok b => exact ⟨b, rfl⟩
    | error e =>
      obtain ⟨p, hp, -⟩ := firstFault_of_outcome_block ho
      exact absurd ⟨p, e, hp⟩ h

/-- **A rule is refused with the error of its first fault.** -/
theorem outcome_block_eq_error_iff :
    (r.block options index).outcome = .error e ↔ r.FirstFault options index e := by
  constructor
  · exact firstFault_of_outcome_block
  · intro h
    cases ho : (r.block options index).outcome with
    | ok b =>
      obtain ⟨p, hp, -⟩ := h
      exact absurd ⟨p, e, hp⟩ (not_faulty_of_outcome_block ho)
    | error e' => rw [h.unique (firstFault_of_outcome_block ho)]

end Rule

/-! ### Faults of a sheet -/

namespace Sheet

/-- Some rule is at fault. -/
def Faulty (sheet : Sheet) (options : Options) : Prop :=
  ∃ (i : Nat) (r : Rule), sheet.rules[i]? = some r ∧ r.Faulty options i

/-- The error is that of the first part at fault of the first rule at fault. -/
def FirstFault (sheet : Sheet) (options : Options) (e : Error) : Prop :=
  ∃ (i : Nat) (r : Rule), sheet.rules[i]? = some r ∧ r.FirstFault options i e ∧
    ∀ j < i, ∀ r' : Rule, sheet.rules[j]? = some r' → ¬ r'.Faulty options j

variable {sheet : Sheet} {options : Options} {e : Error}

theorem outcome_blocks_eq_error_iff :
    (sheet.blocks options).outcome = .error e ↔ sheet.FirstFault options e := by
  rw [Sheet.blocks, Rule.outcome_blocksFrom, Outcome.mapM_eq_error_iff]
  simp only [List.getElem?_zipIdx, Option.map_eq_some_iff, Nat.zero_add]
  constructor
  · rintro ⟨i, _, ⟨r, hr, rfl⟩, he, hok⟩
    refine ⟨i, r, hr, Rule.outcome_block_eq_error_iff.mp he, fun j hj r' hr' => ?_⟩
    have hb := hok j hj (r', j) ⟨r', hr', rfl⟩
    exact Rule.exists_outcome_block_iff.mp hb
  · rintro ⟨i, r, hr, he, hok⟩
    refine ⟨i, _, ⟨r, hr, rfl⟩, Rule.outcome_block_eq_error_iff.mpr he, ?_⟩
    rintro j hj _ ⟨r', hr', rfl⟩
    exact Rule.exists_outcome_block_iff.mpr (hok j hj r' hr')

theorem not_faulty_of_outcome_blocks {blocks : List Block}
    (h : (sheet.blocks options).outcome = .ok blocks) : ¬ sheet.Faulty options := by
  rintro ⟨i, r, hr, hf⟩
  rw [Sheet.blocks, Rule.outcome_blocksFrom] at h
  have hmem : (r, i) ∈ sheet.rules.zipIdx := by
    rw [List.mem_zipIdx_iff_getElem?]
    exact hr
  obtain ⟨b, hb⟩ := Outcome.exists_ok_of_mapM h _ hmem
  exact Rule.not_faulty_of_outcome_block hb hf

theorem exists_firstFault_iff : (∃ e, sheet.FirstFault options e) ↔ sheet.Faulty options := by
  constructor
  · rintro ⟨e, i, r, hr, ⟨p, hp, -⟩, -⟩
    exact ⟨i, r, hr, p, e, hp⟩
  · intro hf
    cases ho : (sheet.blocks options).outcome with
    | ok blocks => exact absurd hf (not_faulty_of_outcome_blocks ho)
    | error e => exact ⟨e, outcome_blocks_eq_error_iff.mp ho⟩

theorem FirstFault.ne_refused (h : sheet.FirstFault options e) : e ≠ .refused := by
  obtain ⟨i, r, -, ⟨p, hp, -⟩, -⟩ := h
  cases hp with
  | selector => exact nofun
  | slot _ hf => cases hf <;> exact nofun
  | custom => exact nofun

/-- **A sheet is refused exactly if it is at fault, and with the error of its first fault.** The
output is then as it was before; a sheet without faults has a text, and the output is given chunks
of this text. -/
theorem writeTo_refuses_first_fault {σ : Type} [Output σ] (sheet : Sheet) (options : Options)
    (sink : σ) :
    (∀ e, (sheet.writeTo options sink).result = .error e ∧ e ≠ .refused ↔
      sheet.FirstFault options e) ∧
    ((∃ e, sheet.FirstFault options e) ↔ sheet.Faulty options) ∧
    (sheet.Faulty options ∧ (sheet.writeTo options sink).sink = sink ∨
      ¬ sheet.Faulty options ∧ ∃ chunks, sheet.compile options = .ok (String.join chunks) ∧
        (sheet.writeTo options sink).sink = (Output.writeAll sink chunks).1 ∧
        (sheet.writeTo options sink).result =
          if (Output.writeAll sink chunks).2 then .ok () else .error .refused) := by
  refine ⟨fun e => ?_, exists_firstFault_iff, ?_⟩
  · constructor
    · rintro ⟨hres, hne⟩
      cases ho : (sheet.blocks options).outcome with
      | error e' =>
        obtain rfl : e' = e := Except.error.inj ((writeTo_of_error ho).1.symm.trans hres)
        exact outcome_blocks_eq_error_iff.mp ho
      | ok blocks =>
        rw [(writeTo_of_ok ho).2] at hres
        split at hres
        · exact nomatch hres
        · exact absurd (Except.error.inj hres).symm hne
    · intro hf
      exact ⟨(writeTo_of_error (outcome_blocks_eq_error_iff.mpr hf)).1, hf.ne_refused⟩
  · cases ho : (sheet.blocks options).outcome with
    | error e =>
      have hf : sheet.Faulty options :=
        exists_firstFault_iff.mp ⟨e, outcome_blocks_eq_error_iff.mp ho⟩
      exact .inl ⟨hf, (writeTo_of_error ho).2⟩
    | ok blocks =>
      refine .inr ⟨not_faulty_of_outcome_blocks ho, options.format.chunks blocks, ?_⟩
      exact ⟨compile_eq_ok_iff.mpr ⟨blocks, ho, rfl⟩, writeTo_of_ok ho⟩

end Sheet

end Cascade
