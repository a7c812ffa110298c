import Cascade.PropSet.Basic

/-! # Property sets as functions

A property set stands for the function `get?` from slots to values, and no other set does
(`ext_get?`); its assignments are the values of this function in the order of the slots
(`entries_eq_filterMap`). Each operation is described by what it does to that function:
`get?_insert`, `get?_erase`, `get?_insertMany`, `get?_merge`, `get?_ofList`. -/

namespace Cascade.PropSet

variable {p q : PropSet} {s t : Slot} {v : Value}

/-! ### The function of a set -/

theorem lookup_cons {e : Slot × Value} {es : List (Slot × Value)} :
    (e :: es).lookup s = if s = e.1 then some e.2 else es.lookup s := by
  obtain ⟨t, w⟩ := e
  rw [List.lookup_cons]
  by_cases h : s = t
  · simp [h]
  · simp [h, beq_false_of_ne h]

theorem lookup_eq_some_iff {es : List (Slot × Value)} (h : es.Pairwise fun a b => a.1 < b.1) :
    es.lookup s = some v ↔ (s, v) ∈ es := by
  induction es with
  | nil => simp
  | cons e es ih =>
    obtain ⟨t, w⟩ := e
    obtain ⟨ht, hes⟩ := List.pairwise_cons.mp h
    by_cases hst : s = t
    · subst hst
      have hs : (s, v) ∉ es := fun hm => Slot.lt_irrefl s (ht _ hm)
      simp [hs, eq_comm]
    · simp [lookup_cons, hst, ih hes]

theorem get?_eq_some_iff : p.get? s = some v ↔ (s, v) ∈ p.entries :=
  lookup_eq_some_iff p.sorted

theorem get?_eq_none_iff : p.get? s = none ↔ ∀ e ∈ p.entries, e.1 ≠ s := by
  rw [Option.eq_none_iff_forall_ne_some]
  constructor
  · rintro h ⟨t, v⟩ he rfl
    exact h v (get?_eq_some_iff.mpr he)
  · intro h v hv
    exact h _ (get?_eq_some_iff.mp hv) rfl

theorem contains_eq_isSome_get? : p.contains s = (p.get? s).isSome := by
  rw [Bool.eq_iff_iff, contains, List.any_eq_true, Option.isSome_iff_exists]
  constructor
  · rintro ⟨⟨t, v⟩, he, hs⟩
    obtain rfl : t = s := by simpa using hs
    exact ⟨v, get?_eq_some_iff.mpr he⟩
  · rintro ⟨v, hv⟩
    exact ⟨(s, v), get?_eq_some_iff.mp hv, by simp⟩

theorem entries_eq_of_mem_iff : ∀ {es fs : List (Slot × Value)},
    es.Pairwise (fun a b => a.1 < b.1) → fs.Pairwise (fun a b => a.1 < b.1) →
    (∀ e, e ∈ es ↔ e ∈ fs) → es = fs
  | [], [], _, _, _ => rfl
  | [], f :: fs, _, _, h => absurd ((h f).mpr List.mem_cons_self) (by simp)
  | e :: es, [], _, _, h => absurd ((h e).mp List.mem_cons_self) (by simp)
  | e :: es, f :: fs, he, hf, h => by
    obtain ⟨he, hes⟩ := List.pairwise_cons.mp he
    obtain ⟨hf, hfs⟩ := List.pairwise_cons.mp hf
    have hef : e = f := by
      rcases List.mem_cons.mp ((h e).mp List.mem_cons_self) with hef | hef
      · exact hef
      rcases List.mem_cons.mp ((h f).mpr List.mem_cons_self) with hfe | hfe
      · exact hfe.symm
      exact absurd (Slot.lt_trans (he f hfe) (hf e hef)) (Slot.lt_irrefl _)
    subst hef
    rw [entries_eq_of_mem_iff hes hfs]
    intro g
    constructor
    · intro hg
      rcases List.mem_cons.mp ((h g).mp (List.mem_cons_of_mem _ hg)) with rfl | hg'
      · exact absurd (he _ hg) (Slot.lt_irrefl _)
      · exact hg'
    · intro hg
      rcases List.mem_cons.mp ((h g).mpr (List.mem_cons_of_mem _ hg)) with rfl | hg'
      · exact absurd (hf _ hg) (Slot.lt_irrefl _)
      · exact hg'

theorem ext_entries (h : p.entries = q.entries) : p = q := by
  obtain ⟨es, _⟩ := p
  obtain ⟨fs, _⟩ := q
  obtain rfl : es = fs := h
  rfl

/-- **A set is determined by its function.** -/
theorem ext_get? (h : ∀ s, p.get? s = q.get? s) : p = q :=
  ext_entries <| entries_eq_of_mem_iff p.sorted q.sorted fun e => by
    rw [← get?_eq_some_iff (p := p), ← get?_eq_some_iff (p := q), h]

/-- The assignments of a set are the values of its function in the order of the slots. -/
theorem entries_eq_filterMap (p : PropSet) :
    p.entries = Slot.all.filterMap fun s => (p.get? s).map fun v => (s, v) := by
  refine entries_eq_of_mem_iff p.sorted ?_ fun e => ?_
  · refine Slot.pairwise_all.filterMap _ fun s t hst e he f hf => ?_
    obtain ⟨v, -, rfl⟩ := Option.map_eq_some_iff.mp he
    obtain ⟨w, -, rfl⟩ := Option.map_eq_some_iff.mp hf
    exact hst
  · obtain ⟨s, v⟩ := e
    rw [← get?_eq_some_iff, List.mem_filterMap]
    constructor
    · intro h
      exact ⟨s, Slot.mem_all s, by rw [h]; rfl⟩
    · rintro ⟨t, -, h⟩
      obtain ⟨w, hw, heq⟩ := Option.map_eq_some_iff.mp h
      obtain ⟨rfl, rfl⟩ := Prod.mk.inj heq
      exact hw

/-! ### Operations -/

@[simp] theorem get?_empty : empty.get? s = none := rfl

theorem lookup_insertEntry {es : List (Slot × Value)} :
    (insertEntry t v es).lookup s = if s = t then some v else es.lookup s := by
  induction es with
  | nil => by_cases h : s = t <;> simp [insertEntry, lookup_cons, h]
  | cons e es ih =>
    obtain ⟨u, w⟩ := e
    unfold insertEntry
    split
    · by_cases h : s = t <;> simp [lookup_cons, h]
    · split
      · next htu =>
        subst htu
        by_cases h : s = t <;> simp [lookup_cons, h]
      · next htu =>
        by_cases h : s = u
        · subst h
          simp [Ne.symm htu]
        · simp [lookup_cons, h, ih]

theorem get?_insert : (p.insert t v).get? s = if s = t then some v else p.get? s :=
  lookup_insertEntry

theorem get?_erase : (p.erase t).get? s = if s = t then none else p.get? s := by
  split
  · next h =>
    subst h
    rw [get?_eq_none_iff]
    intro e he
    simpa using (List.mem_filter.mp he).2
  · next h =>
    apply Option.ext
    intro v
    rw [get?_eq_some_iff, get?_eq_some_iff]
    simp [erase, h]

theorem get?_insertMany {es : List (Slot × Value)} :
    (p.insertMany es).get? s = (es.reverse.lookup s).or (p.get? s) := by
  induction es generalizing p with
  | nil => simp [insertMany]
  | cons e es ih =>
    rw [insertMany, List.foldl_cons, ← insertMany, ih, get?_insert, List.reverse_cons,
      List.lookup_append, Option.or_assoc]
    by_cases h : s = e.1 <;> simp [lookup_cons, h]

theorem lookup_reverse {es : List (Slot × Value)} (h : es.Pairwise fun a b => a.1 < b.1) :
    es.reverse.lookup s = es.lookup s := by
  induction es with
  | nil => rfl
  | cons e es ih =>
    obtain ⟨t, w⟩ := e
    obtain ⟨ht, hes⟩ := List.pairwise_cons.mp h
    rw [List.reverse_cons, List.lookup_append, ih hes]
    by_cases hst : s = t
    · subst hst
      have hs : es.lookup s = none := by
        rw [Option.eq_none_iff_forall_ne_some]
        intro v hv
        exact Slot.lt_irrefl s (ht _ ((lookup_eq_some_iff hes).mp hv))
      simp [hs]
    · simp [lookup_cons, hst]

theorem get?_merge : (p.merge q).get? s = (q.get? s).or (p.get? s) := by
  rw [merge, get?_insertMany, lookup_reverse q.sorted]
  rfl

theorem get?_ofList {es : List (Slot × Value)} : (ofList es).get? s = es.reverse.lookup s := by
  rw [ofList, get?_insertMany, get?_empty, Option.or_none]

end Cascade.PropSet
