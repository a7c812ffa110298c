import Cascade.Slot

/-! # Property sets

A property set assigns values to some of the slots. It is kept as the list of its assignments in
the order of the slots, with no slot twice, so it does not remember in which order they were made.
The function from slots to values that a set stands for is `get?`. -/

namespace Cascade

/-- The values assigned to slots, in the order of the slots. -/
structure PropSet where
  entries : List (Slot × Value)
  sorted : entries.Pairwise fun a b => a.1 < b.1

namespace PropSet

instance : BEq PropSet := ⟨fun p q => p.entries == q.entries⟩

/-! ### Assignments in order -/

/-- The assignments with one for the given slot put at its place, instead of an earlier one. -/
def insertEntry (s : Slot) (v : Value) : List (Slot × Value) → List (Slot × Value)
  | [] => [(s, v)]
  | (t, w) :: es =>
    if s < t then (s, v) :: (t, w) :: es
    else if s = t then (s, v) :: es
    else (t, w) :: insertEntry s v es

theorem mem_insertEntry {s : Slot} {v : Value} {es : List (Slot × Value)} {e : Slot × Value}
    (h : e ∈ insertEntry s v es) : e = (s, v) ∨ e ∈ es := by
  induction es with
  | nil => simpa [insertEntry] using h
  | cons f es ih =>
    unfold insertEntry at h
    split at h
    · simpa using h
    · split at h
      · rcases List.mem_cons.mp h with rfl | h
        · exact .inl rfl
        · exact .inr (List.mem_cons_of_mem _ h)
      · rcases List.mem_cons.mp h with rfl | h
        · exact .inr List.mem_cons_self
        · exact (ih h).imp id (List.mem_cons_of_mem _)

theorem pairwise_insertEntry (s : Slot) (v : Value) {es : List (Slot × Value)}
    (h : es.Pairwise fun a b => a.1 < b.1) :
    (insertEntry s v es).Pairwise fun a b => a.1 < b.1 := by
  induction es with
  | nil => simp [insertEntry]
  | cons f es ih =>
    obtain ⟨hf, hes⟩ := List.pairwise_cons.mp h
    unfold insertEntry
    split
    · next hlt =>
      refine List.pairwise_cons.mpr ⟨fun e he => ?_, h⟩
      rcases List.mem_cons.mp he with rfl | he
      · exact hlt
      · exact Slot.lt_trans hlt (hf e he)
    · next hlt =>
      split
      · next heq =>
        subst heq
        exact List.pairwise_cons.mpr ⟨hf, hes⟩
      · next hne =>
        refine List.pairwise_cons.mpr ⟨fun e he => ?_, ih hes⟩
        rcases mem_insertEntry he with rfl | he
        · rcases Slot.lt_or_eq_or_lt s f.1 with h | h | h
          · exact absurd h hlt
          · exact absurd h hne
          · exact h
        · exact hf e he

/-! ### Operations -/

/-- The set without assignments. -/
def empty : PropSet := ⟨[], .nil⟩

instance : EmptyCollection PropSet := ⟨empty⟩

instance : Inhabited PropSet := ⟨empty⟩

/-- The value of a slot. -/
def get? (p : PropSet) (s : Slot) : Option Value := p.entries.lookup s

/-- Whether a slot has a value. -/
def contains (p : PropSet) (s : Slot) : Bool := p.entries.any (·.1 = s)

/-- The number of slots with a value. -/
def size (p : PropSet) : Nat := p.entries.length

/-- Whether no slot has a value. -/
def isEmpty (p : PropSet) : Bool := p.entries.isEmpty

/-- The set with a value for a slot, instead of an earlier one. -/
def insert (p : PropSet) (s : Slot) (v : Value) : PropSet :=
  ⟨insertEntry s v p.entries, pairwise_insertEntry s v p.sorted⟩

/-- The set without a value for a slot. -/
def erase (p : PropSet) (s : Slot) : PropSet :=
  ⟨p.entries.filter (·.1 ≠ s), p.sorted.filter _⟩

/-- The set with all the given assignments made in turn. -/
def insertMany (p : PropSet) (es : List (Slot × Value)) : PropSet :=
  es.foldl (fun q e => q.insert e.1 e.2) p

/-- The set of the given assignments made in turn, so that the last one of a slot counts. -/
def ofList (es : List (Slot × Value)) : PropSet := empty.insertMany es

/-- The set with the values of another one, instead of its own where both have one. -/
def merge (p q : PropSet) : PropSet := p.insertMany q.entries

end PropSet

end Cascade
