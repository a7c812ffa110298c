import Cascade.Compile
import Mathlib.Data.List.Forall2

/-! # Outcomes

What comes of a computation when the events it reports are left out. A sheet *resolves* to the
blocks of its rules, each with the declarations of its assignments and then the rule's own ones.
The checks of selectors and names can only refuse a sheet: one that is not refused has the blocks
it resolves to (`Sheet.resolve_of_outcome_blocks`), whatever the options are.

A list of computations that may fail returns the list of all results (`mapM_eq_ok_iff`), or the
error of the first one that fails (`mapM_eq_error_iff`). -/

namespace Cascade

namespace Outcome

/-! ### Computations that may fail -/

section Except
variable {ε α β : Type}

theorem bind_eq_ok_iff {x : Except ε α} {f : α → Except ε β} {b : β} :
    x >>= f = .ok b ↔ ∃ a, x = .ok a ∧ f a = .ok b := by
  cases x <;> simp [bind, Except.bind]

theorem bind_eq_error_iff {x : Except ε α} {f : α → Except ε β} {e : ε} :
    x >>= f = .error e ↔ x = .error e ∨ ∃ a, x = .ok a ∧ f a = .error e := by
  cases x <;> simp [bind, Except.bind]

theorem bind_pure_eq_error_iff {x : Except ε α} {g : α → β} {e : ε} :
    (x >>= fun a => pure (g a)) = .error e ↔ x = .error e := by
  cases x <;> simp [bind, Except.bind, pure, Except.pure]

theorem mapM_eq_ok_iff {f : α → Except ε β} {xs : List α} {ys : List β} :
    xs.mapM f = .ok ys ↔ List.Forall₂ (fun x y => f x = .ok y) xs ys := by
  induction xs generalizing ys with
  | nil =>
    rw [List.mapM_nil, List.forall₂_nil_left_iff]
    exact ⟨fun h => (Except.ok.inj h).symm, fun h => by rw [h]; rfl⟩
  | cons x xs ih =>
    rw [List.mapM_cons, bind_eq_ok_iff, List.forall₂_cons_left_iff]
    constructor
    · rintro ⟨y, hy, h⟩
      obtain ⟨zs, hzs, h⟩ := bind_eq_ok_iff.mp h
      exact ⟨y, zs, hy, ih.mp hzs, (Except.ok.inj h).symm⟩
    · rintro ⟨y, zs, hy, hzs, rfl⟩
      exact ⟨y, hy, bind_eq_ok_iff.mpr ⟨zs, ih.mpr hzs, rfl⟩⟩

theorem exists_mem_of_mapM {f : α → Except ε β} {xs : List α} {ys : List β}
    (h : xs.mapM f = .ok ys) : ∀ x ∈ xs, ∃ y ∈ ys, f x = .ok y := by
  rw [mapM_eq_ok_iff] at h
  induction h with
  | nil => simp
  | cons hxy _ ih =>
    intro x hx
    rcases List.mem_cons.mp hx with rfl | hx
    · exact ⟨_, List.mem_cons_self, hxy⟩
    · obtain ⟨y, hy, hxy⟩ := ih x hx
      exact ⟨y, List.mem_cons_of_mem _ hy, hxy⟩

theorem exists_arg_of_mapM {f : α → Except ε β} {xs : List α} {ys : List β}
    (h : xs.mapM f = .ok ys) : ∀ y ∈ ys, ∃ x ∈ xs, f x = .ok y := by
  rw [mapM_eq_ok_iff] at h
  induction h with
  | nil => simp
  | cons hxy _ ih =>
    intro y hy
    rcases List.mem_cons.mp hy with rfl | hy
    · exact ⟨_, List.mem_cons_self, hxy⟩
    · obtain ⟨x, hx, hxy⟩ := ih y hy
      exact ⟨x, List.mem_cons_of_mem _ hx, hxy⟩

theorem exists_ok_of_mapM {f : α → Except ε β} {xs : List α} {ys : List β}
    (h : xs.mapM f = .ok ys) : ∀ x ∈ xs, ∃ y, f x = .ok y := by
  intro x hx
  obtain ⟨y, -, hy⟩ := exists_mem_of_mapM h x hx
  exact ⟨y, hy⟩

theorem mapM_eq_error_iff {f : α → Except ε β} {xs : List α} {e : ε} :
    xs.mapM f = .error e ↔
      ∃ (i : Nat) (x : α), xs[i]? = some x ∧ f x = .error e ∧
        ∀ j < i, ∀ y, xs[j]? = some y → ∃ b, f y = .ok b := by
  induction xs with
  | nil =>
    rw [List.mapM_nil]
    constructor
    · intro h
      exact nomatch h
    · rintro ⟨i, x, hx, -⟩
      simp at hx
  | cons x xs ih =>
    rw [List.mapM_cons, bind_eq_error_iff]
    constructor
    · rintro (he | ⟨b, hb, h⟩)
      · exact ⟨0, x, rfl, he, fun j hj => absurd hj (Nat.not_lt_zero j)⟩
      · obtain ⟨i, y, hy, he, hok⟩ := ih.mp (bind_pure_eq_error_iff.mp h)
        refine ⟨i + 1, y, hy, he, fun j hj z hz => ?_⟩
        rcases j with _ | j
        · obtain rfl : x = z := Option.some.inj hz
          exact ⟨b, hb⟩
        · exact hok j (by omega) z hz
    · rintro ⟨i, y, hy, he, hok⟩
      rcases i with _ | i
      · obtain rfl : x = y := Option.some.inj hy
        exact .inl he
      · obtain ⟨b, hb⟩ := hok 0 (by omega) x rfl
        refine .inr ⟨b, hb, bind_pure_eq_error_iff.mpr (ih.mpr ⟨i, y, hy, he, ?_⟩)⟩
        exact fun j hj z hz => hok (j + 1) (by omega) z hz

theorem forM_eq_mapM {f : α → Except ε Unit} {xs : List α} :
    xs.forM f = xs.mapM f >>= fun _ => pure () := by
  induction xs with
  | nil => rfl
  | cons x xs ih =>
    rw [List.forM_eq_forM] at ih ⊢
    rw [List.forM_cons, List.mapM_cons, ih]
    simp

end Except

/-! ### Homomorphisms -/

/-- **A homomorphism of monads goes through a list.** -/
theorem mapM_hom {m n : Type → Type} [Monad m] [LawfulMonad m] [Monad n] [LawfulMonad n]
    (φ : {α : Type} → m α → n α) (hpure : ∀ {α : Type} (a : α), φ (pure a) = pure a)
    (hbind : ∀ {α β : Type} (x : m α) (f : α → m β), φ (x >>= f) = φ x >>= fun a => φ (f a))
    {α β : Type} (f : α → m β) (xs : List α) : φ (xs.mapM f) = xs.mapM fun x => φ (f x) := by
  induction xs with
  | nil => exact hpure []
  | cons x xs ih => simp only [List.mapM_cons, hbind, hpure, ih]

theorem mapM_map_result {ε α β γ : Type} (f : α → Except ε β) (g : β → γ) (xs : List α) :
    xs.mapM (fun x => g <$> f x) = List.map g <$> xs.mapM f := by
  induction xs with
  | nil => rfl
  | cons x xs ih =>
    rw [List.mapM_cons, List.mapM_cons, ih]
    cases f x with
    | error e => rfl
    | ok y => cases xs.mapM f <;> rfl

section MapError
variable {ε ε' α β : Type} (g : ε → ε')

theorem mapError_pure (a : α) : (pure a : Except ε α).mapError g = pure a := rfl

theorem mapError_bind (x : Except ε α) (f : α → Except ε β) :
    (x >>= f).mapError g = x.mapError g >>= fun a => (f a).mapError g := by
  cases x <;> rfl

theorem mapError_mapM (f : α → Except ε β) (xs : List α) :
    (xs.mapM f).mapError g = xs.mapM fun x => (f x).mapError g :=
  mapM_hom (Except.mapError g) (mapError_pure g) (mapError_bind g) f xs

theorem mapError_eq_self {g : ε → ε} {x : Except ε α} (h : ∀ e, x = .error e → g e = e) :
    x.mapError g = x := by
  cases x with
  | ok a => rfl
  | error e => exact congrArg Except.error (h e rfl)

end MapError

end Outcome

/-! ### Outcomes of traced computations -/

namespace Traced

variable {α β : Type}

theorem outcome_pure (a : α) : (pure a : Traced α).outcome = pure a := rfl

theorem outcome_ofExcept (x : Except Error α) : (ofExcept x).outcome = x := rfl

theorem outcome_bind (x : Traced α) (f : α → Traced β) :
    (x >>= f).outcome = x.outcome >>= fun a => (f a).outcome := by
  obtain ⟨es, e | a⟩ := x <;> rfl

theorem outcome_map (x : Traced α) (f : α → β) : (f <$> x).outcome = f <$> x.outcome := by
  rw [map_eq_pure_bind, outcome_bind, map_eq_pure_bind]
  rfl

theorem outcome_mapM (f : α → Traced β) (xs : List α) :
    (xs.mapM f).outcome = xs.mapM fun x => (f x).outcome :=
  Outcome.mapM_hom outcome outcome_pure outcome_bind f xs

theorem outcome_reportError (event : Error → Event) (x : Traced α) :
    (x.reportError event).outcome = x.outcome := by
  unfold reportError
  split
  · rfl
  · next h => exact h.symm ▸ rfl

end Traced

/-! ### Rules and sheets -/

theorem Slot.outcome_declare (s : Slot) (v : Value) : (s.declare v).outcome = s.resolve v := by
  rw [declare, Traced.outcome_bind]
  change s.resolve v >>= _ = _
  -- a report changes no outcome
  have hreport (ds : List Declaration) : (do
      if ds.isEmpty && !s.isComposite then
        Traced.report (.omitted s)
      return ds).outcome = pure ds := by
    split <;> rfl
  simp only [hreport, bind_pure]

namespace Rule

variable (r : Rule) (options : Options) (index : Nat)

/-- The block that a rule resolves to. -/
def resolve : Except Error Block := do
  let typed ← r.props.entries.mapM fun e => e.1.resolve e.2
  return ⟨r.selector, typed.flatten ++ r.custom⟩

theorem outcome_typed : r.typed.outcome =
    List.flatten <$> r.props.entries.mapM fun e => e.1.resolve e.2 := by
  rw [typed, Traced.outcome_map, Traced.outcome_mapM]
  simp only [Slot.outcome_declare]

theorem resolve_eq_map_typed :
    r.resolve = (fun typed => ⟨r.selector, typed ++ r.custom⟩) <$> r.typed.outcome := by
  rw [outcome_typed]
  unfold resolve
  cases r.props.entries.mapM fun e => e.1.resolve e.2 <;> rfl

/-- Refuses a rule with a declaration of its own whose name is not an identifier, if names are to
be checked. -/
def checkNames : Except Error Unit := if options.validateNames then r.requireNames else pure ()

theorem checkNames_of_nil (h : r.custom = []) : r.checkNames options = .ok () := by
  unfold checkNames requireNames
  rw [h]
  split <;> rfl

theorem outcome_block : (r.block options index).outcome = do
    r.requireSelector index
    let b ← r.resolve
    r.checkNames options
    return b := by
  simp only [block, Traced.outcome_bind, Traced.outcome_ofExcept, outcome_typed, resolve,
    checkNames]
  cases options.validateNames with
  | false => simp [Traced.outcome_pure]
  | true => simp [Traced.outcome_map, Traced.outcome_ofExcept]

variable {r options index}

theorem resolve_of_outcome_block {b : Block} (h : (r.block options index).outcome = .ok b) :
    r.resolve = .ok b := by
  rw [outcome_block] at h
  obtain ⟨-, -, h⟩ := Outcome.bind_eq_ok_iff.mp h
  obtain ⟨c, hc, h⟩ := Outcome.bind_eq_ok_iff.mp h
  obtain ⟨-, -, h⟩ := Outcome.bind_eq_ok_iff.mp h
  rw [hc]
  exact h

theorem exists_flatten_of_typed {typed : List Declaration} (h : r.typed.outcome = .ok typed) :
    ∃ dss, (r.props.entries.mapM fun e => e.1.resolve e.2) = .ok dss ∧ dss.flatten = typed := by
  rw [outcome_typed] at h
  cases hdss : r.props.entries.mapM fun e => e.1.resolve e.2 with
  | error e =>
    rw [hdss] at h
    cases h
  | ok dss =>
    rw [hdss] at h
    exact ⟨dss, rfl, Except.ok.inj h⟩

theorem exists_typed_of_resolve {b : Block} (h : r.resolve = .ok b) :
    ∃ typed, r.typed.outcome = .ok typed ∧ b = ⟨r.selector, typed ++ r.custom⟩ := by
  rw [resolve_eq_map_typed] at h
  cases htyped : r.typed.outcome with
  | error e =>
    rw [htyped] at h
    cases h
  | ok typed =>
    rw [htyped] at h
    exact ⟨typed, rfl, (Except.ok.inj h).symm⟩

theorem outcome_reportedBlock :
    (r.reportedBlock options index).outcome = (r.block options index).outcome := by
  rw [reportedBlock, Traced.outcome_reportError]

theorem outcome_blocksFrom_cons (start : Nat) (r : Rule) (rules : List Rule) (options : Options) :
    (blocksFrom start (r :: rules) options).outcome = do
      let b ← (r.block options start).outcome
      let bs ← (blocksFrom (start + 1) rules options).outcome
      return b :: bs := by
  rw [blocksFrom_cons, Traced.outcome_bind, outcome_reportedBlock]
  simp only [Traced.outcome_bind, Traced.outcome_pure]

theorem outcome_blocksFrom (start : Nat) (rules : List Rule) (options : Options) :
    (blocksFrom start rules options).outcome =
      (rules.zipIdx start).mapM fun r => (r.1.block options r.2).outcome := by
  simp only [blocksFrom, Traced.outcome_mapM, reportedBlock, Traced.outcome_reportError]

end Rule

namespace Sheet

variable {sheet : Sheet} {options : Options} {blocks : List Block}

/-- The blocks that a sheet resolves to. -/
def resolve (sheet : Sheet) : Except Error (List Block) := sheet.rules.mapM Rule.resolve

theorem outcome_blocks_eq_ok_iff :
    (sheet.blocks options).outcome = .ok blocks ↔ List.Forall₂
      (fun r b => (r.1.block options r.2).outcome = .ok b) sheet.rules.zipIdx blocks := by
  rw [Sheet.blocks, Rule.outcome_blocksFrom, Outcome.mapM_eq_ok_iff]

/-- **A sheet that is not refused has the blocks it resolves to.** -/
theorem resolve_of_outcome_blocks (h : (sheet.blocks options).outcome = .ok blocks) :
    sheet.resolve = .ok blocks := by
  rw [outcome_blocks_eq_ok_iff] at h
  rw [resolve, Outcome.mapM_eq_ok_iff, ← List.zipIdx_map_fst 0 sheet.rules,
    List.forall₂_map_left_iff]
  exact h.imp fun _ _ => Rule.resolve_of_outcome_block

theorem length_of_outcome_blocks (h : (sheet.blocks options).outcome = .ok blocks) :
    blocks.length = sheet.rules.length := by
  rw [outcome_blocks_eq_ok_iff] at h
  rw [← h.length_eq, List.length_zipIdx]

theorem compile_eq_ok_iff {text : String} : sheet.compile options = .ok text ↔
    ∃ blocks, (sheet.blocks options).outcome = .ok blocks ∧
      options.format.render blocks = text := by
  rw [compile_eq_map_render]
  cases (sheet.blocks options).outcome <;> simp [Except.map]

theorem exists_resolve_of_compile {text : String} (h : sheet.compile options = .ok text) :
    ∃ blocks, sheet.resolve = .ok blocks ∧ options.format.render blocks = text := by
  obtain ⟨blocks, hblocks, htext⟩ := compile_eq_ok_iff.mp h
  exact ⟨blocks, resolve_of_outcome_blocks hblocks, htext⟩

theorem compile_eq_error_iff {e : Error} : sheet.compile options = .error e ↔
    (sheet.blocks options).outcome = .error e := by
  rw [compile_eq_map_render]
  cases (sheet.blocks options).outcome <;> simp [Except.map]

end Sheet

end Cascade
