import Cascade.Proofs.Fault

/-! # Concatenation

The text of two sheets one after the other is determined by the text of each of them
(`Sheet.compile_append`): the first error counts, and an error of the second sheet is about a rule
that comes later by the number of rules of the first. So the text of a sheet is the texts of its
rules, each compiled on its own, in their order (`Sheet.compile_eq_intercalate`). -/

namespace Cascade

/-! ### Errors about later rules -/

/-- The error with a rule in place of the one that it is about, if any, that comes `n` later. -/
def Error.shift (n : Nat) : Error → Error
  | .blankSelector index => .blankSelector (index + n)
  | e => e

theorem Slot.Fault.shift_eq {s : Slot} {v : Value} {e : Error} (h : s.Fault v e) (n : Nat) :
    e.shift n = e := by
  cases h <;> rfl

namespace Rule

variable (r : Rule) (options : Options)

theorem requireSelector_add (i n : Nat) :
    r.requireSelector (i + n) = (r.requireSelector i).mapError (·.shift n) := by
  unfold requireSelector
  split <;> rfl

theorem resolve_mapError_shift (n : Nat) : r.resolve.mapError (·.shift n) = r.resolve := by
  refine Outcome.mapError_eq_self fun e he => ?_
  obtain ⟨s, hs, -⟩ := resolve_of_error {} 0 he
  cases hs with
  | slot _ hf => exact hf.shift_eq n

theorem checkNames_mapError_shift (n : Nat) :
    (r.checkNames options).mapError (·.shift n) = r.checkNames options := by
  refine Outcome.mapError_eq_self fun e he => ?_
  obtain ⟨i, hi, -⟩ := checkNames_of_error 0 he
  cases hi with
  | custom => rfl

theorem outcome_block_add (i n : Nat) : (r.block options (i + n)).outcome =
    (r.block options i).outcome.mapError (·.shift n) := by
  simp only [outcome_block, Outcome.mapError_bind, Outcome.mapError_pure,
    requireSelector_add, resolve_mapError_shift, checkNames_mapError_shift]

theorem outcome_blocksFrom_add (rules : List Rule) (n : Nat) :
    (blocksFrom n rules options).outcome =
      (blocksFrom 0 rules options).outcome.mapError (·.shift n) := by
  rw [outcome_blocksFrom, outcome_blocksFrom, Outcome.mapError_mapM, List.zipIdx_eq_map_add,
    List.mapM_map]
  refine congrArg (List.mapM · rules.zipIdx) (funext fun x => ?_)
  change (x.1.block options (n + x.2)).outcome = _
  rw [Nat.add_comm, outcome_block_add]

end Rule

/-! ### Sheets -/

namespace Sheet

variable (a b : Sheet) (options : Options)

theorem outcome_blocks_append : ((a ++ b).blocks options).outcome = do
    let bs ← (a.blocks options).outcome
    let cs ← (b.blocks options).outcome.mapError (·.shift a.size)
    return bs ++ cs := by
  change (Rule.blocksFrom 0 (a.rules ++ b.rules) options).outcome = _
  rw [Rule.blocksFrom_append, Traced.outcome_bind]
  simp only [Traced.outcome_bind, Traced.outcome_pure, Nat.zero_add]
  rw [Rule.outcome_blocksFrom_add options b.rules a.rules.length]
  rfl

theorem isEmpty_of_outcome_blocks {sheet : Sheet} {options : Options} {blocks : List Block}
    (h : (sheet.blocks options).outcome = .ok blocks) : blocks.isEmpty = sheet.isEmpty := by
  have hlen := length_of_outcome_blocks h
  rw [isEmpty, Bool.eq_iff_iff, List.isEmpty_iff_length_eq_zero, List.isEmpty_iff_length_eq_zero,
    hlen]

theorem compile_append : (a ++ b).compile options = do
    let s ← a.compile options
    let t ← (b.compile options).mapError (·.shift a.size)
    return s ++ (if a.isEmpty || b.isEmpty then "" else options.format.gap) ++ t := by
  rw [compile_eq_map_render, compile_eq_map_render, compile_eq_map_render, outcome_blocks_append]
  cases ha : (a.blocks options).outcome with
  | error e => rfl
  | ok bs =>
    cases hb : (b.blocks options).outcome with
    | error e => rfl
    | ok cs =>
      rw [← isEmpty_of_outcome_blocks ha, ← isEmpty_of_outcome_blocks hb]
      exact congrArg Except.ok (options.format.render_append bs cs)

theorem compile_singleton (r : Rule) (i : Nat) :
    ((Sheet.mk [r]).compile options).mapError (·.shift i) =
      (·.render options.format) <$> (r.block options i).outcome := by
  have hi := Rule.outcome_block_add r options 0 i
  rw [Nat.zero_add] at hi
  rw [hi, compile_eq_map_render, Sheet.blocks, Rule.outcome_blocksFrom, List.zipIdx_singleton,
    List.mapM_cons, List.mapM_nil]
  cases (r.block options 0).outcome with
  | error e => rfl
  | ok b => exact congrArg Except.ok (options.format.render_singleton b)

theorem compile_eq_intercalate (sheet : Sheet) : sheet.compile options =
    options.format.gap.intercalate <$> sheet.rules.zipIdx.mapM fun r =>
      ((Sheet.mk [r.1]).compile options).mapError (·.shift r.2) := by
  simp only [compile_singleton, Outcome.mapM_map_result]
  rw [compile_eq_map_render, Sheet.blocks, Rule.outcome_blocksFrom]
  cases sheet.rules.zipIdx.mapM fun r => (r.1.block options r.2).outcome with
  | error e => rfl
  | ok bs =>
    refine congrArg Except.ok ?_
    rw [Format.render_eq_intercalate, Format.join_separator]

/-- **The text of two sheets one after the other is determined by the texts of the two**, and the
text of a sheet by the texts of its rules, each on its own. -/
theorem compile_concatenation (options : Options) :
    (∀ a b : Sheet, (a ++ b).compile options = do
      let s ← a.compile options
      let t ← (b.compile options).mapError (·.shift a.size)
      return s ++ (if a.isEmpty || b.isEmpty then "" else options.format.gap) ++ t) ∧
    ∀ sheet : Sheet, sheet.compile options =
      options.format.gap.intercalate <$> sheet.rules.zipIdx.mapM fun r =>
        ((Sheet.mk [r.1]).compile options).mapError (·.shift r.2) :=
  ⟨fun a b => compile_append a b options, compile_eq_intercalate options⟩

end Sheet

end Cascade
