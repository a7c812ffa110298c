import Cascade.Proofs.Log

/-! # Checking names

The names of the declarations outside the slots are checked or not, and all else is the same
(`Rule.outcome_block_checked`). So a sheet that is not refused where names are not checked is refused
where they are exactly for its first invalid name (`Rule.outcome_blocksFrom_checked`). One that is
refused anyway may be refused for an invalid name instead, but only for one in an earlier rule, since
the names of a rule are checked after everything else in it.

Main statement: `Sheet.checking_narrows`. -/

namespace Cascade

/-- The result, unless some declaration has an invalid name; then the error for the first one. -/
def Declaration.checked {α : Type} (ds : List Declaration) (x : Except Error α) : Except Error α :=
  match ds.find? fun d => !Identifier.isValid d.name with
  | none => x
  | some d => .error (.invalidName d.name)

namespace Declaration

variable {α β : Type} {ds es : List Declaration} {x : Except Error α}

theorem checked_append : checked (ds ++ es) x = checked ds (checked es x) := by
  unfold checked
  rw [List.find?_append]
  cases ds.find? fun d => !Identifier.isValid d.name <;> rfl

theorem checked_bind (f : α → Except Error β) :
    checked ds x >>= f = checked ds (x >>= f) := by
  unfold checked
  cases ds.find? fun d => !Identifier.isValid d.name <;> rfl

theorem map_checked (f : α → β) : (checked ds x).map f = checked ds (x.map f) := by
  unfold checked
  cases ds.find? fun d => !Identifier.isValid d.name <;> rfl

theorem eq_of_checked_eq_ok {a : α} (h : checked ds x = .ok a) : x = .ok a := by
  unfold checked at h
  split at h
  · exact h
  · cases h

/-- All names are valid. -/
def AllValid (ds : List Declaration) : Prop := ∀ d ∈ ds, Identifier.isValid d.name = true

/-- The declaration is the first one with an invalid name. -/
def FirstInvalid (ds : List Declaration) (d : Declaration) : Prop :=
  ∃ before after, ds = before ++ d :: after ∧ AllValid before ∧ Identifier.isValid d.name = false

theorem checked_cases (ds : List Declaration) (x : Except Error α) :
    AllValid ds ∧ checked ds x = x ∨
      ∃ d, FirstInvalid ds d ∧ checked ds x = .error (.invalidName d.name) := by
  unfold checked
  cases hfind : ds.find? fun d => !Identifier.isValid d.name with
  | none =>
    have hvalid : AllValid ds := by
      intro d hd
      simpa using List.find?_eq_none.mp hfind d hd
    exact .inl ⟨hvalid, rfl⟩
  | some d =>
    obtain ⟨hd, before, after, hds, hbefore⟩ := List.find?_eq_some_iff_append.mp hfind
    have hvalid : AllValid before := by
      intro d' hd'
      simpa using hbefore d' hd'
    exact .inr ⟨d, ⟨before, after, hds, hvalid, by simpa using hd⟩, rfl⟩

end Declaration

namespace Rule

variable {r : Rule} {rules before after : List Rule} {format : Format} {start : Nat}

theorem requireNames_eq_checked (r : Rule) : r.requireNames = Declaration.checked r.custom (.ok ()) := by
  unfold requireNames
  induction r.custom with
  | nil => rfl
  | cons d ds ih =>
    rw [List.forM_eq_forM] at ih ⊢
    rw [List.forM_cons, ih, Declaration.requireName]
    unfold Declaration.checked
    cases hd : Identifier.isValid d.name <;> simp [hd, bind, Except.bind]

/-- **Checking the names of a rule comes last.** -/
theorem outcome_block_checked (r : Rule) (format : Format) (index : Nat) :
    (r.block ⟨format, true⟩ index).outcome =
      (r.block ⟨format, false⟩ index).outcome >>= fun b => Declaration.checked r.custom (.ok b) := by
  have hchecked : r.checkNames ⟨format, true⟩ = Declaration.checked r.custom (.ok ()) :=
    r.requireNames_eq_checked
  have hunchecked : r.checkNames ⟨format, false⟩ = pure () := rfl
  simp only [outcome_block, hchecked, hunchecked, Declaration.checked_bind, bind_assoc, pure_bind]
  rfl

/-- **Rules that are not refused are refused for their first invalid name where names are
checked.** -/
theorem outcome_blocksFrom_checked {blocks : List Block}
    (h : (blocksFrom start rules ⟨format, false⟩).outcome = .ok blocks) :
    (blocksFrom start rules ⟨format, true⟩).outcome =
      Declaration.checked (rules.flatMap Rule.custom) (.ok blocks) := by
  induction rules generalizing start blocks with
  | nil => exact h
  | cons r rules ih =>
    rw [outcome_blocksFrom_cons] at h ⊢
    obtain ⟨b, hb, h⟩ := Outcome.bind_eq_ok_iff.mp h
    obtain ⟨bs, hbs, h⟩ := Outcome.bind_eq_ok_iff.mp h
    obtain rfl := Except.ok.inj h
    have hr : (r.block ⟨format, true⟩ start).outcome = Declaration.checked r.custom (.ok b) := by
      rw [outcome_block_checked, hb]
      rfl
    rw [hr, ih hbs, List.flatMap_cons, Declaration.checked_append, Declaration.checked_bind]
    refine congrArg _ ?_
    exact Declaration.checked_bind _

theorem outcome_blocksFrom_checked_of_error {blocks : List Block} {e : Error}
    (hbefore : (blocksFrom start before ⟨format, false⟩).outcome = .ok blocks)
    (hr : (r.block ⟨format, false⟩ (start + before.length)).outcome = .error e) :
    (blocksFrom start (before ++ r :: after) ⟨format, true⟩).outcome =
      Declaration.checked (before.flatMap Rule.custom) (.error e) := by
  have hr' : (r.block ⟨format, true⟩ (start + before.length)).outcome = .error e := by
    rw [outcome_block_checked, hr]
    rfl
  rw [blocksFrom_append, Traced.outcome_bind, outcome_blocksFrom_checked hbefore,
    Declaration.checked_bind]
  refine congrArg _ ?_
  change (blocksFrom (start + before.length) (r :: after) ⟨format, true⟩ >>= _).outcome = _
  rw [Traced.outcome_bind, outcome_blocksFrom_cons, hr']
  rfl

end Rule

namespace Sheet

variable {sheet : Sheet} {options : Options} {format : Format}

theorem compile_of_outcome {x : Except Error (List Block)}
    (h : (sheet.blocks options).outcome = x) : sheet.compile options = x.map options.format.render := by
  rw [compile_eq_map_render, h]

theorem compile_checked_of_ok {text : String} (h : sheet.compile ⟨format, false⟩ = .ok text) :
    sheet.compile ⟨format, true⟩ =
      Declaration.checked (sheet.rules.flatMap Rule.custom) (.ok text) := by
  obtain ⟨blocks, hblocks, rfl⟩ := compile_eq_ok_iff.mp h
  rw [compile_of_outcome (Rule.outcome_blocksFrom_checked hblocks), Declaration.map_checked]
  rfl

theorem FaultAt.compile_checked {i : Nat} {r : Rule} {p : Part} {e : Error}
    (h : sheet.FaultAt ⟨format, false⟩ i r p e) : sheet.compile ⟨format, true⟩ =
      Declaration.checked ((sheet.rules.take i).flatMap Rule.custom) (.error e) := by
  obtain ⟨hrules, hlength, blocks, hblocks⟩ := h.exists_blocks_take
  have hr : (r.block ⟨format, false⟩ (0 + (sheet.rules.take i).length)).outcome = .error e := by
    rw [hlength]
    exact Rule.outcome_block_eq_error_iff.mpr ⟨p, h.fault, h.first⟩
  have hchecked := @Rule.outcome_blocksFrom_checked_of_error r (sheet.rules.take i)
    (sheet.rules.drop (i + 1)) format 0 blocks e hblocks hr
  rw [← hrules] at hchecked
  rw [compile_of_outcome hchecked, Declaration.map_checked]
  rfl

theorem exists_faultAt_of_compile {e : Error} (h : sheet.compile options = .error e) :
    ∃ i r p, sheet.FaultAt options i r p e :=
  firstFault_iff_exists_faultAt.mp (outcome_blocks_eq_error_iff.mp (compile_eq_error_iff.mp h))

theorem compile_unchecked_of_checked {text : String} (h : sheet.compile ⟨format, true⟩ = .ok text) :
    sheet.compile ⟨format, false⟩ = .ok text := by
  cases hoff : sheet.compile ⟨format, false⟩ with
  | ok text' =>
    rw [compile_checked_of_ok hoff] at h
    exact Declaration.eq_of_checked_eq_ok h
  | error e =>
    obtain ⟨i, r, p, hfault⟩ := exists_faultAt_of_compile hoff
    rw [hfault.compile_checked] at h
    exact Declaration.eq_of_checked_eq_ok h

/-- **Where names are checked, fewer sheets compile, and nothing else changes.** A sheet that compiles
anyway is refused for its first invalid name, if it has one. One that is refused anyway is refused
for the same, or for the first invalid name in the rules before the one at fault. -/
theorem checking_narrows (sheet : Sheet) (format : Format) :
    (∀ text, sheet.compile ⟨format, true⟩ = .ok text → sheet.compile ⟨format, false⟩ = .ok text) ∧
    (∀ text, sheet.compile ⟨format, false⟩ = .ok text →
      Declaration.AllValid (sheet.rules.flatMap Rule.custom) ∧
        sheet.compile ⟨format, true⟩ = .ok text ∨
      ∃ d, Declaration.FirstInvalid (sheet.rules.flatMap Rule.custom) d ∧
        sheet.compile ⟨format, true⟩ = .error (.invalidName d.name)) ∧
    ∀ e, sheet.compile ⟨format, false⟩ = .error e →
      ∃ i r p, sheet.FaultAt ⟨format, false⟩ i r p e ∧
        (Declaration.AllValid ((sheet.rules.take i).flatMap Rule.custom) ∧
          sheet.compile ⟨format, true⟩ = .error e ∨
        ∃ d, Declaration.FirstInvalid ((sheet.rules.take i).flatMap Rule.custom) d ∧
          sheet.compile ⟨format, true⟩ = .error (.invalidName d.name)) := by
  refine ⟨fun text => compile_unchecked_of_checked, fun text h => ?_, fun e h => ?_⟩
  · rw [compile_checked_of_ok h]
    exact Declaration.checked_cases _ _
  · obtain ⟨i, r, p, hfault⟩ := exists_faultAt_of_compile h
    refine ⟨i, r, p, hfault, ?_⟩
    rw [hfault.compile_checked]
    exact Declaration.checked_cases _ _

/-- An invalid name before a rule with a blank selector, and one after it. -/
theorem checking_narrows_before_blank_selector :
    ∃ sheet broken : Sheet,
      sheet.compile ⟨.compact, false⟩ = .ok "a{b c:1;}" ∧
      sheet.compile ⟨.compact, true⟩ = .error (.invalidName "b c") ∧
      broken.compile ⟨.compact, false⟩ = .error (.blankSelector 1) ∧
      broken.compile ⟨.compact, true⟩ = .error (.invalidName "b c") := by
  let sheet : Sheet := ⟨[{ selector := "a", custom := [⟨"b c", "1"⟩] }]⟩
  let broken : Sheet := ⟨[{ selector := "a", custom := [⟨"b c", "1"⟩] },
    { selector := " ", custom := [⟨"d;", "2"⟩] }]⟩
  have htext : sheet.compile ⟨.compact, false⟩ = .ok "a{b c:1;}" := rfl
  have hblank : broken.compile ⟨.compact, false⟩ = .error (.blankSelector 1) := rfl
  have hinvalid : ¬ Declaration.AllValid [⟨"b c", "1"⟩] := by
    intro h
    cases h _ List.mem_cons_self
  have hfirst (d : Declaration) (h : Declaration.FirstInvalid [⟨"b c", "1"⟩] d) :
      d.name = "b c" := by
    obtain ⟨before, after, hds, -, -⟩ := h
    have hmem : d ∈ [(⟨"b c", "1"⟩ : Declaration)] := hds ▸ List.mem_append_right _ List.mem_cons_self
    rw [List.mem_singleton.mp hmem]
  refine ⟨sheet, broken, htext, ?_, hblank, ?_⟩
  · rcases (checking_narrows sheet .compact).2.1 _ htext with ⟨hvalid, -⟩ | ⟨d, hd, herror⟩
    · exact absurd hvalid hinvalid
    · rw [herror, hfirst d hd]
  · obtain ⟨i, r, p, hfault, h⟩ := (checking_narrows broken .compact).2.2 _ hblank
    obtain rfl : i = 1 := by
      cases hfault.fault with
      | selector => rfl
      | slot _ hf => cases hf
    rcases h with ⟨hvalid, -⟩ | ⟨d, hd, herror⟩
    · exact absurd hvalid hinvalid
    · rw [herror, hfirst d hd]

end Sheet

end Cascade
