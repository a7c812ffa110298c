import Cascade.Proofs.Binary64.Integer
import Cascade.Proofs.Expansion
import Cascade.Proofs.LengthText
import Cascade.Proofs.TypedSetting

/-! # Texts of integers

A length whose magnitude is an integer up to `2 ^ 53` is written with the numeral of the integer,
its last zeros included. So is the stacking order of a rule, which is a 32-bit integer. It is never
refused, and it is declared after all other slots.

Main statements:
- `Length.css_of_value_eq`: the text of a length with an integer for its magnitude.
- `Rule.typed_of_zIndex`: what the slots of a rule with a stacking order declare.
- `integers_written_in_full`: lengths and rules with integers. -/

namespace Cascade

/-! ### Numerals -/

namespace Decimal

theorem numeral_mul_ten_pow {m : ℕ} (h : 0 < m) (zeros : ℕ) :
    numeral (m * 10 ^ zeros) = numeral m ++ List.replicate zeros '0' := by
  induction zeros with
  | zero => rw [pow_zero, Nat.mul_one, List.replicate_zero, List.append_nil]
  | succ zeros ih =>
    have hpos : 0 < m * 10 ^ zeros := Nat.mul_pos h (Nat.pow_pos (by decide))
    have hpow : m * 10 ^ (zeros + 1) = 10 * (m * 10 ^ zeros) + 0 := by
      rw [pow_succ]
      ring
    calc numeral (m * 10 ^ (zeros + 1)) = numeral (m * 10 ^ zeros) ++ numeral 0 := by
          rw [hpow]
          exact (Nat.toDigits_append_toDigits (by decide) hpos (by decide)).symm
      _ = numeral m ++ (List.replicate zeros '0' ++ ['0']) := by rw [ih, List.append_assoc]; rfl
      _ = numeral m ++ List.replicate (zeros + 1) '0' := by rw [← List.replicate_succ']

theorem text_of_natCast {m : ℕ} (negative : Bool) (h : 0 < m) (zeros : ℕ) :
    text ⟨negative, m, zeros⟩ =
      (if negative then ['-'] else []) ++ numeral (m * 10 ^ zeros) := by
  rw [numeral_mul_ten_pow h]
  cases negative <;> rfl

theorem ofList_numeral (m : ℕ) : String.ofList (numeral m) = toString m :=
  Nat.toString_eq_ofList_toDigits.symm

theorem toString_eq_ofList_numeral (n : ℤ) :
    toString n = String.ofList ((if n < 0 then ['-'] else []) ++ numeral n.natAbs) := by
  rw [String.ofList_append, ofList_numeral]
  cases n with
  | ofNat m =>
    have hsign : ¬ Int.ofNat m < 0 := Int.not_lt.mpr (Int.natCast_nonneg m)
    rw [if_neg hsign, String.ofList_nil, String.empty_append]
    rfl
  | negSucc m =>
    have hsign : Int.negSucc m < 0 := Int.negSucc_lt_zero m
    rw [if_pos hsign]
    rfl

end Decimal

/-! ### Numbers and lengths -/

theorem Binary64.negative_iff_of_value_eq {x : Binary64} {n : ℤ} (hvalue : x.value = n)
    (hn : n ≠ 0) : x.negative = true ↔ n < 0 := by
  have hnonneg := magnitude_nonneg x.ordinal
  have hne : x.value ≠ 0 := by
    rw [hvalue]
    exact_mod_cast hn
  have hcast : n < 0 ↔ x.value < 0 := by
    rw [hvalue]
    exact_mod_cast Iff.rfl
  rw [hcast]
  cases hsign : x.negative with
  | false =>
    rw [value_of_not_negative hsign]
    exact iff_of_false Bool.false_ne_true (not_lt.mpr hnonneg)
  | true =>
    rw [value_of_negative hsign] at hne ⊢
    exact iff_of_true rfl (lt_of_le_of_ne (neg_nonpos.mpr hnonneg) hne)

/-- **A number with an integer value up to `2 ^ 53` is written as the numeral of the integer.** -/
theorem Binary64.text_of_value_eq {x : Binary64} {n : ℤ} (hvalue : x.value = n) (hn : n ≠ 0)
    (hbound : n.natAbs ≤ 0x20000000000000) : x.text = toString n := by
  have hmagnitude := magnitude_of_value_eq hvalue
  have hzero : x.isZero = false := by
    rw [← Bool.not_eq_true, ← value_eq_zero_iff, hvalue]
    exact_mod_cast hn
  have hsign := negative_iff_of_value_eq hvalue hn
  obtain ⟨digits, zeros, hshortest, hdigits⟩ :=
    exists_shortest_of_natCast hzero hmagnitude hbound
  have hpos : 0 < digits := by
    apply Nat.pos_of_ne_zero
    rintro rfl
    omega
  rw [text_of_isFinite (isFinite_of_magnitude hmagnitude hbound) hzero, hshortest,
    Decimal.text_of_natCast _ hpos, hdigits, Decimal.toString_eq_ofList_numeral]
  simp only [hsign]

/-- **A length with an integer up to `2 ^ 53` for its magnitude** is written as the numeral of the
integer and the suffix of the unit, or as `0`. -/
theorem Length.css_of_value_eq {x : Binary64} {unit : LengthUnit} {n : ℤ}
    (hunit : unit.hasMagnitude = true) (hvalue : x.value = n)
    (hbound : n.natAbs ≤ 0x20000000000000) :
    css ⟨x, unit⟩ = if n = 0 then "0" else toString n ++ unit.suffix := by
  have hzero : x.isZero = true ↔ n = 0 := by
    rw [← Binary64.value_eq_zero_iff, hvalue, Int.cast_eq_zero]
  rw [@css_of_hasMagnitude ⟨x, unit⟩ hunit]
  simp only [hzero]
  split
  · rfl
  · next hn => rw [Binary64.text_of_value_eq hvalue hn hbound]

/-! ### Stacking orders -/

theorem Slot.resolve_length {s : Slot} {l : Length} (hs : s.accepts (.length l) = true)
    (hl : l.isFinite = true) : s.resolve (.length l) = .ok [⟨s.name, l.css⟩] := by
  have hrequire : l.requireFinite s = .ok () := by
    rw [Length.requireFinite, Length.nonFinite?_eq_none_iff.mpr hl]
  unfold resolve
  rw [if_pos hs]
  dsimp only
  rw [hrequire]
  rfl

/-- A bare number with an integer value is declared as the numeral of the integer. -/
theorem Slot.resolve_ofNumber {s : Slot} {x : Binary64} {n : ℤ}
    (hs : s.accepts (.ofNumber x) = true) (hvalue : x.value = n)
    (hbound : n.natAbs ≤ 0x20000000000000) :
    s.resolve (.ofNumber x) = .ok [⟨s.name, toString n⟩] := by
  have hmagnitude := Binary64.magnitude_of_value_eq hvalue
  have hfinite : Length.isFinite ⟨x, .number⟩ = true :=
    Binary64.isFinite_of_magnitude hmagnitude hbound
  have hcss : Length.css ⟨x, .number⟩ = toString n := by
    rw [Length.css_of_value_eq rfl hvalue hbound]
    split
    · next hn =>
      rw [hn]
      rfl
    · exact String.append_empty
  rw [Value.ofNumber, resolve_length hs hfinite, hcss]

theorem Slot.resolve_zIndex (n : Int32) :
    zIndex.resolve (zIndex.ofArg n) = .ok [⟨"z-index", toString n.toInt⟩] := by
  have hlower := n.le_toInt
  have hupper := n.toInt_lt
  have hbound : n.toInt.natAbs ≤ 0x20000000000000 := by omega
  exact @resolve_ofNumber zIndex _ _ rfl (Binary64.value_ofInt hbound) hbound

theorem Slot.lt_zIndex {s : Slot} (h : s ≠ .zIndex) : s < .zIndex := by
  revert h
  cases s <;> decide

/-- The stacking order comes after all other assignments. -/
theorem PropSet.entries_of_zIndex {p : PropSet} {v : Value} (h : p.get? .zIndex = some v) :
    p.entries = (p.without (· = .zIndex)).entries ++ [(.zIndex, v)] := by
  refine entries_eq_of_mem_iff p.sorted ?_ fun e => ?_
  · refine List.pairwise_append.mpr ⟨(p.without _).sorted, List.pairwise_singleton _ _, ?_⟩
    intro a ha b hb
    obtain rfl := List.mem_singleton.mp hb
    obtain ⟨-, hne⟩ := List.mem_filter.mp ha
    exact Slot.lt_zIndex (by simpa using hne)
  · obtain ⟨s, w⟩ := e
    rw [List.mem_append, List.mem_singleton, without, List.mem_filter]
    by_cases hs : s = .zIndex
    · subst hs
      rw [← get?_eq_some_iff, h]
      simp [eq_comm]
    · simp [hs]

theorem PropSet.get?_foldl_apply {settings : List Style.Setting} {s : Slot}
    (h : ∀ a ∈ settings, a.slot ≠ s) (p : PropSet) :
    (settings.foldl Style.apply p).get? s = p.get? s := by
  induction settings generalizing p with
  | nil => rfl
  | cons a settings ih =>
    obtain ⟨ha, hsettings⟩ := List.forall_mem_cons.mp h
    rw [List.foldl_cons, ih hsettings, Style.get?_apply, if_neg ha.symm]

/-- A slot keeps the value of the last setting that is made for it. -/
theorem PropSet.get?_ofSettings_of_last {before after : List Style.Setting} {a : Style.Setting}
    (h : ∀ b ∈ after, b.slot ≠ a.slot) :
    (ofSettings (before ++ a :: after)).get? a.slot = some a.value := by
  rw [ofSettings, List.foldl_append, List.foldl_cons, get?_foldl_apply h, Style.get?_apply,
    if_pos rfl]

namespace Rule

variable {r : Rule} {n : Int32}

/-- **The slots of a rule with a stacking order** declare what they do without it, and then the
stacking order. -/
theorem typed_of_zIndex (h : r.props.get? .zIndex = some (Slot.zIndex.ofArg n)) :
    r.typed.outcome = (· ++ [⟨"z-index", toString n.toInt⟩]) <$>
      (r.without (· = .zIndex)).typed.outcome := by
  have hlast : List.flatten <$> [(Slot.zIndex, Slot.zIndex.ofArg n)].mapM
      (fun e => e.1.resolve e.2) = .ok [⟨"z-index", toString n.toInt⟩] := by
    rw [Outcome.flatten_mapM_cons, Slot.resolve_zIndex]
    rfl
  rw [outcome_typed, PropSet.entries_of_zIndex h, Outcome.flatten_mapM_append, hlast, outcome_typed,
    without]
  cases List.flatten <$> (r.props.without (· = .zIndex)).entries.mapM fun e => e.1.resolve e.2 <;>
    rfl

theorem resolve_of_zIndex (h : r.props.get? .zIndex = some (Slot.zIndex.ofArg n)) :
    r.resolve = (fun typed => ⟨r.selector, typed ++ ⟨"z-index", toString n.toInt⟩ :: r.custom⟩) <$>
      (r.without (· = .zIndex)).typed.outcome := by
  rw [resolve_eq_map_typed, typed_of_zIndex h]
  cases (r.without (· = .zIndex)).typed.outcome with
  | error e => rfl
  | ok typed => simp [Functor.map, Except.map]

/-- **A stacking order is never refused**: the errors of a rule are those that it has without. -/
theorem outcome_block_eq_error_iff_of_zIndex
    (h : r.props.get? .zIndex = some (Slot.zIndex.ofArg n)) (options : Options) (index : Nat)
    (e : Error) : (r.block options index).outcome = .error e ↔
      ((r.without (· = .zIndex)).block options index).outcome = .error e := by
  have hselector : (r.without (· = .zIndex)).requireSelector index = r.requireSelector index := rfl
  have hnames : (r.without (· = .zIndex)).checkNames options = r.checkNames options := rfl
  rw [outcome_block, outcome_block, hselector, hnames, resolve_of_zIndex h, resolve_eq_map_typed]
  cases r.requireSelector index with
  | error _ => exact Iff.rfl
  | ok _ =>
    cases (r.without (· = .zIndex)).typed.outcome with
    | error _ => exact Iff.rfl
    | ok typed =>
      cases r.checkNames options with
      | error _ => exact Iff.rfl
      | ok _ => constructor <;> intro h <;> cases h

/-- **The block of a rule with a stacking order** is the one without, with the stacking order after
the declarations of the other slots. -/
theorem outcome_block_of_zIndex (h : r.props.get? .zIndex = some (Slot.zIndex.ofArg n))
    {options : Options} {index : Nat} {b : Block}
    (hb : ((r.without (· = .zIndex)).block options index).outcome = .ok b) :
    ∃ typed, (r.without (· = .zIndex)).typed.outcome = .ok typed ∧
      b = ⟨r.selector, typed ++ r.custom⟩ ∧ (r.block options index).outcome =
        .ok ⟨r.selector, typed ++ ⟨"z-index", toString n.toInt⟩ :: r.custom⟩ := by
  obtain ⟨typed, htyped, rfl⟩ := exists_typed_of_resolve (resolve_of_outcome_block hb)
  refine ⟨typed, htyped, rfl, ?_⟩
  cases hr : (r.block options index).outcome with
  | error e =>
    rw [outcome_block_eq_error_iff_of_zIndex h, hb] at hr
    cases hr
  | ok b =>
    have hresolve := resolve_of_outcome_block hr
    rw [resolve_of_zIndex h, htyped] at hresolve
    exact hresolve.symm

/-- A rule with nothing but a stacking order. -/
theorem outcome_block_zIndex {selector : String} (hselector : Text.isBlank selector = false)
    (n : Int32) (options : Options) (index : Nat) :
    (block { selector, props := .ofSettings [.zIndex n] } options index).outcome =
      .ok ⟨selector, [⟨"z-index", toString n.toInt⟩]⟩ := by
  let r : Rule := { selector, props := .ofSettings [.zIndex n] }
  have hresolve : r.resolve = .ok ⟨selector, [⟨"z-index", toString n.toInt⟩]⟩ := by
    have hget : r.props.get? .zIndex = some (Slot.zIndex.ofArg n) := rfl
    rw [resolve_of_zIndex hget]
    rfl
  rw [outcome_block, requireSelector, hselector, hresolve, checkNames_of_nil r options rfl]
  rfl

end Rule

/-- **Integers are written in full.** Up to `2 ^ 53` an integer is a number, and a length with this
magnitude is written as the numeral of the integer and the suffix of its unit, or as `0`. A rule
whose last stacking order is an integer of 32 bits is refused for nothing else than without it, and
its block has the numeral of the integer after the declarations of the other slots. -/
theorem integers_written_in_full :
    (∀ n : ℤ, n.natAbs ≤ 2 ^ 53 → (Binary64.ofInt n).value = n ∧
      ∀ (x : Binary64) (unit : LengthUnit), x.value = n → unit.hasMagnitude = true →
        Length.css ⟨x, unit⟩ = if n = 0 then "0" else toString n ++ unit.suffix) ∧
    (∀ (n : Int32) (before after : List Style.Setting) (r : Rule),
      (∀ a ∈ after, a.slot ≠ .zIndex) →
      r.props = .ofSettings (before ++ .zIndex n :: after) →
      ∀ (options : Options) (index : Nat),
        (∀ e, (r.block options index).outcome = .error e ↔
          ((r.without (· = .zIndex)).block options index).outcome = .error e) ∧
        ∀ b, ((r.without (· = .zIndex)).block options index).outcome = .ok b →
          ∃ typed, (r.without (· = .zIndex)).typed.outcome = .ok typed ∧
            b = ⟨r.selector, typed ++ r.custom⟩ ∧ (r.block options index).outcome =
              .ok ⟨r.selector, typed ++ ⟨"z-index", toString n.toInt⟩ :: r.custom⟩) ∧
    ∀ (n : Int32) (selector : String) (options : Options), Text.isBlank selector = false →
      Sheet.compile ⟨[{ selector, props := .ofSettings [.zIndex n] }]⟩ options =
        .ok (Block.render ⟨selector, [⟨"z-index", toString n.toInt⟩]⟩ options.format) := by
  refine ⟨fun n hbound => ?_, fun n before after r hafter hprops options index => ?_,
    fun n selector options hselector => ?_⟩
  · have hbound : n.natAbs ≤ 0x20000000000000 := hbound
    exact ⟨Binary64.value_ofInt hbound, fun x unit hvalue hunit =>
      Length.css_of_value_eq hunit hvalue hbound⟩
  · have hget : r.props.get? .zIndex = some (Slot.zIndex.ofArg n) := by
      rw [hprops]
      exact PropSet.get?_ofSettings_of_last hafter
    exact ⟨Rule.outcome_block_eq_error_iff_of_zIndex hget options index,
      fun b hb => Rule.outcome_block_of_zIndex hget hb⟩
  · exact Sheet.compile_singleton_of_outcome (Rule.outcome_block_zIndex hselector n options 0)

/-- The least length of the range, the greatest stacking order after another one, with a width, and
the least stacking order. -/
theorem integers_written_in_full_ends :
    Length.css ⟨.ofInt (-9007199254740992), .percent⟩ = "-9007199254740992%" ∧
    (∃ r : Rule,
      r.props = .ofSettings [.zIndex 7, .width .auto, .zIndex 2147483647,
        .inherit .color] ∧
      r.custom = [⟨"z-index", "1"⟩] ∧
      (r.block {} 0).outcome = .ok ⟨"a", [⟨"color", "inherit"⟩, ⟨"width", "auto"⟩,
        ⟨"z-index", "2147483647"⟩, ⟨"z-index", "1"⟩]⟩) ∧
    Sheet.compile ⟨[{ selector := "a", props := .ofSettings [.zIndex (-2147483648)] }]⟩ {} =
      .ok "a{z-index:-2147483648;}" := by
  obtain ⟨hvalue, hcss⟩ := integers_written_in_full.1 (-9007199254740992) (by decide)
  refine ⟨hcss _ .percent hvalue rfl, ?_, ?_⟩
  · let r : Rule := ⟨"a", .ofSettings [.zIndex 7, .width .auto, .zIndex 2147483647,
      .inherit .color], [⟨"z-index", "1"⟩]⟩
    have hafter : ∀ a ∈ [Style.Setting.inherit .color], a.slot ≠ .zIndex :=
      List.forall_mem_singleton.mpr (by decide)
    have hother : ((r.without (· = .zIndex)).block {} 0).outcome = .ok ⟨"a",
        [⟨"color", "inherit"⟩, ⟨"width", "auto"⟩, ⟨"z-index", "1"⟩]⟩ := by decide +kernel
    obtain ⟨-, hok⟩ := integers_written_in_full.2.1 2147483647
      [.zIndex 7, .width .auto] [.inherit .color] r hafter rfl {} 0
    obtain ⟨typed, htyped, -, hblock⟩ := hok _ hother
    obtain rfl := Except.ok.inj htyped
    exact ⟨r, rfl, rfl, hblock⟩
  · exact integers_written_in_full.2.2 (-2147483648) "a" {} rfl

end Cascade
