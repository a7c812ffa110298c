import Cascade.Proofs.Identifier.Gap
import Mathlib.Algebra.Ring.Parity
import Mathlib.Data.List.DropRight

/-! # Names before a colon

A name that is read from a text of its own may be read differently where a colon and more text come
after it: the end of the text closes an escape and a comment, a colon closes neither. An escape that
is open at the end of the name takes the colon into the name (`splitName_append_colon_of_open`), and
an open comment after the name swallows it. These are the only two ways
(`token?_append_colon_iff`). -/

namespace Cascade.Identifier

/-! ### Open escapes -/

/-- The text ends with a backslash that is not escaped itself: the backslashes at its end are odd in
number. -/
def OpenEscape (cs : List Char) : Prop := Odd (cs.rtakeWhile (· = '\\')).length

instance (cs : List Char) : Decidable (OpenEscape cs) := inferInstanceAs (Decidable (Odd _))

theorem openEscape_concat_iff {cs : List Char} {c : Char} :
    OpenEscape (cs ++ [c]) ↔ c = '\\' ∧ ¬ OpenEscape cs := by
  unfold OpenEscape
  rw [List.rtakeWhile_concat]
  by_cases hc : c = '\\'
  · simp [hc, Nat.odd_add_one]
  · simp [hc]

/-- Whether an escape is open after a character, if one was or was not open before it. -/
def escapes (isOpen : Bool) (c : Char) : Bool := c = '\\' && !isOpen

theorem foldl_escapes_iff {cs : List Char} : cs.foldl escapes false = true ↔ OpenEscape cs := by
  induction cs using List.reverseRecOn with
  | nil => simp [OpenEscape]
  | append_singleton cs c ih =>
    rw [List.foldl_concat, openEscape_concat_iff, ← ih]
    simp [escapes]

/-! ### Places -/

theorem opensEscape_append_colon (cs t : List Char) :
    opensEscape (cs ++ ':' :: t) = opensEscape cs := by
  cases cs <;> rfl

theorem Place.after_append_colon (place : Place) (c : Char) (cs t : List Char) :
    place.after c (cs ++ ':' :: t) = place.after c cs := by
  cases place <;> simp only [after, afterPlain, opensEscape_append_colon]

theorem Place.afterPlain_eq_escape_iff {next : Place} {c : Char} {cs : List Char}
    (h : afterPlain c cs = some next) : next = .escape ↔ c = '\\' := by
  unfold afterPlain at h
  split at h
  · next hc =>
    split at h
    · simp [← Option.some.inj h, hc]
    · cases h
  · next hc =>
    split at h
    · simp [← Option.some.inj h, hc]
    · cases h

theorem Place.after_eq_escape_iff {place next : Place} {c : Char} {cs : List Char}
    (h : place.after c cs = some next) : next = .escape ↔ c = '\\' ∧ place ≠ .escape := by
  cases place with
  | between => simp [afterPlain_eq_escape_iff h]
  | escape =>
    rw [after] at h
    split at h <;> simp [← Option.some.inj h]
  | hex more =>
    rw [after] at h
    split at h
    · next hc =>
      have hne : c ≠ '\\' := by
        rintro rfl
        exact absurd hc (by simp [isHex])
      simp [← Option.some.inj h, hne]
    split at h
    · next hc => simp [← Option.some.inj h, hc]
    split at h
    · next hc =>
      have hne : c ≠ '\\' := by
        rintro rfl
        exact absurd hc (by decide)
      simp [← Option.some.inj h, hne]
    · simp [afterPlain_eq_escape_iff h]
  | carriageReturn =>
    rw [after] at h
    split at h
    · next hc => simp [← Option.some.inj h, hc]
    · simp [afterPlain_eq_escape_iff h]

/-! ### Names before a colon -/

theorem splitName_cons_of_some {place next : Place} {c : Char} {cs : List Char}
    (h : place.after c cs = some next) :
    splitName place (c :: cs) = (c :: (splitName next cs).1, (splitName next cs).2) := by
  rw [splitName, h]

theorem splitName_cons_of_none {place : Place} {c : Char} {cs : List Char}
    (h : place.after c cs = none) : splitName place (c :: cs) = ([], c :: cs) := by
  rw [splitName, h]

theorem Place.after_colon_of_ne {place : Place} (h : place ≠ .escape) (t : List Char) :
    place.after ':' t = none := by
  cases place with
  | escape => exact absurd rfl h
  | between | carriageReturn => rfl
  | hex more =>
    have hhex : isHex ':' = false := by decide
    rw [after, hhex, Bool.false_and]
    rfl

theorem escapes_eq_of_after {place next : Place} {c : Char} {cs : List Char}
    (h : place.after c cs = some next) :
    escapes (place = .escape) c = decide (next = .escape) := by
  simp [escapes, Place.after_eq_escape_iff h]

section AppendColon
variable {cs name rest : List Char} {place : Place}

/-- A name that does not end in an open escape ends before a colon as it does at the end of the
text. -/
theorem splitName_append_colon (h : splitName place cs = (name, rest))
    (hclosed : name.foldl escapes (place = .escape) = false) (t : List Char) :
    splitName place (cs ++ ':' :: t) = (name, rest ++ ':' :: t) := by
  induction cs generalizing place name with
  | nil =>
    obtain ⟨rfl, rfl⟩ := Prod.mk.inj h
    have hplace : place ≠ .escape := by simpa using hclosed
    exact splitName_cons_of_none (Place.after_colon_of_ne hplace t)
  | cons c cs ih =>
    have hlook := Place.after_append_colon place c cs t
    cases hc : place.after c cs with
    | none =>
      obtain ⟨rfl, rfl⟩ := Prod.mk.inj ((splitName_cons_of_none hc).symm.trans h)
      exact splitName_cons_of_none (hlook.trans hc)
    | some next =>
      obtain ⟨rfl, hrest⟩ := Prod.mk.inj ((splitName_cons_of_some hc).symm.trans h)
      rw [List.foldl_cons, escapes_eq_of_after hc] at hclosed
      rw [List.cons_append, splitName_cons_of_some (hlook.trans hc),
        ih (Prod.ext rfl hrest) hclosed]

/-- A name that ends in an open escape takes a colon after it along. -/
theorem splitName_append_colon_of_open (h : splitName place cs = (name, rest))
    (hopen : name.foldl escapes (place = .escape) = true) (t : List Char) :
    ∃ more rest', splitName place (cs ++ ':' :: t) = (name ++ ':' :: more, rest') := by
  induction cs generalizing place name with
  | nil =>
    obtain ⟨rfl, rfl⟩ := Prod.mk.inj h
    obtain rfl : place = .escape := by simpa using hopen
    exact ⟨_, _, splitName_cons_of_some rfl⟩
  | cons c cs ih =>
    have hlook := Place.after_append_colon place c cs t
    cases hc : place.after c cs with
    | none =>
      -- no name stops right after the backslash of an escape
      obtain ⟨rfl, rfl⟩ := Prod.mk.inj ((splitName_cons_of_none hc).symm.trans h)
      obtain rfl : place = .escape := by simpa using hopen
      cases hc
    | some next =>
      obtain ⟨rfl, hrest⟩ := Prod.mk.inj ((splitName_cons_of_some hc).symm.trans h)
      rw [List.foldl_cons, escapes_eq_of_after hc] at hopen
      obtain ⟨more, rest', hmore⟩ := ih (Prod.ext rfl hrest) hopen
      refine ⟨more, rest', ?_⟩
      rw [List.cons_append, splitName_cons_of_some (hlook.trans hc), hmore]
      rfl

end AppendColon

/-! ### Identifiers before a colon -/

theorem startsName_cons_of_ne {c : Char} (hc : c ≠ '\\') (cs : List Char) :
    startsName (c :: cs) = isNameStart c := by
  rw [startsName]
  exact hc

theorem startsName_append_colon {cs : List Char} (h : startsName cs = true) (t : List Char) :
    startsName (cs ++ ':' :: t) = true := by
  rcases cs with _ | ⟨c, cs⟩
  · cases h
  by_cases hc : c = '\\'
  · subst hc
    exact (opensEscape_append_colon cs t).trans h
  · rw [List.cons_append, startsName_cons_of_ne hc, ← startsName_cons_of_ne hc cs, h]

theorem startsIdentifier_of_startsName {cs : List Char} (h : startsName cs = true) :
    startsIdentifier cs = true := by
  unfold startsIdentifier
  split
  · rfl
  · cases h
  · exact h

theorem startsIdentifier_hyphen_of_startsName {cs : List Char} (h : startsName cs = true) :
    startsIdentifier ('-' :: cs) = true := by
  rcases cs with _ | ⟨c, cs⟩
  · cases h
  by_cases hc : c = '-'
  · subst hc
    rfl
  · rw [startsIdentifier, h]
    simpa using hc

theorem startsIdentifier_append_colon {cs : List Char} (h : startsIdentifier cs = true)
    (t : List Char) : startsIdentifier (cs ++ ':' :: t) = true := by
  unfold startsIdentifier at h
  split at h
  · rfl
  · exact startsIdentifier_hyphen_of_startsName (startsName_append_colon h t)
  · exact startsIdentifier_of_startsName (startsName_append_colon h t)

theorem not_isSeparator_of_startsIdentifier {c : Char} {cs : List Char}
    (h : startsIdentifier (c :: cs) = true) : isSeparator c = false := by
  by_contra hc
  simp only [isSeparator, isNewline, Bool.or_eq_true, beq_iff_eq, Bool.not_eq_false] at hc
  rcases hc with (rfl | rfl) | (rfl | rfl) | rfl <;> cases h

theorem skipGap_of_startsIdentifier {cs : List Char} (h : startsIdentifier cs = true) :
    skipGap false cs = cs := by
  rcases cs with _ | ⟨c, cs⟩
  · rfl
  rw [skipGap, not_isSeparator_of_startsIdentifier h]
  · rfl
  rintro ds rfl rfl
  cases h

/-! ### Whole names -/

/-- The identifier that comes after a gap, and the text after the gap that follows it. -/
def token? (cs : List Char) : Option (List Char × List Char) :=
  (read? cs).map fun p => (p.1, skipGap false p.2)

section Read
variable {cs name rest : List Char}

theorem read?_eq_some_iff : read? cs = some (name, rest) ↔
    startsIdentifier (skipGap false cs) = true ∧
      splitName .between (skipGap false cs) = (name, rest) := by
  unfold read?
  simp only [Option.ite_none_right_eq_some, Option.some.injEq]

theorem skipGap_append_colon_of_read? (h : read? cs = some (name, rest)) (t : List Char) :
    skipGap false (cs ++ ':' :: t) = skipGap false cs ++ ':' :: t := by
  have hstart := (read?_eq_some_iff.mp h).1
  rcases exists_gap cs with ⟨gap, hgap, hcs⟩ | hopen
  · conv_lhs => rw [hcs, List.append_assoc, hgap.skipGap_append]
    exact skipGap_of_startsIdentifier (startsIdentifier_append_colon hstart t)
  · rw [hopen.skipGap_eq_nil] at hstart
    cases hstart

theorem read?_append_colon (h : read? cs = some (name, rest)) (hclosed : ¬ OpenEscape name)
    (t : List Char) : read? (cs ++ ':' :: t) = some (name, rest ++ ':' :: t) := by
  obtain ⟨hstart, hsplit⟩ := read?_eq_some_iff.mp h
  rw [read?_eq_some_iff, skipGap_append_colon_of_read? h]
  rw [← foldl_escapes_iff, Bool.not_eq_true] at hclosed
  exact ⟨startsIdentifier_append_colon hstart t, splitName_append_colon hsplit hclosed t⟩

theorem read?_append_colon_of_open (h : read? cs = some (name, rest)) (hopen : OpenEscape name)
    (t : List Char) : ∃ more rest', read? (cs ++ ':' :: t) = some (name ++ ':' :: more, rest') := by
  obtain ⟨hstart, hsplit⟩ := read?_eq_some_iff.mp h
  obtain ⟨more, rest', hmore⟩ :=
    splitName_append_colon_of_open hsplit (foldl_escapes_iff.mpr hopen) t
  refine ⟨more, rest', ?_⟩
  rw [read?_eq_some_iff, skipGap_append_colon_of_read? h]
  exact ⟨startsIdentifier_append_colon hstart t, hmore⟩

theorem skipGap_append_colon_iff (h : skipGap false rest = []) (t : List Char) :
    skipGap false (rest ++ ':' :: t) = ':' :: t ↔ Gap rest := by
  constructor
  · intro hskip
    rcases exists_gap rest with ⟨gap, hgap, hrest⟩ | hopen
    · rw [h, List.append_nil] at hrest
      exact hrest ▸ hgap
    · have hlt := hopen.length_skipGap_append_lt (show ':' ≠ '/' by decide) t
      rw [hskip] at hlt
      exact absurd hlt (Nat.lt_irrefl _)
  · intro hgap
    exact hgap.skipGap_append _

/-- **A name ends at the colon after it exactly if nothing in it is left open.** -/
theorem token?_append_colon_iff (h : read? cs = some (name, rest)) (hrest : skipGap false rest = [])
    (t : List Char) :
    token? (cs ++ ':' :: t) = some (name, ':' :: t) ↔ ¬ OpenEscape name ∧ Gap rest := by
  by_cases hopen : OpenEscape name
  · obtain ⟨more, rest', hmore⟩ := read?_append_colon_of_open h hopen t
    simp [token?, hmore, hopen]
  · simp [token?, read?_append_colon h hopen t, hopen, skipGap_append_colon_iff hrest]

theorem isValid_iff_exists_read? {s : String} : isValid s = true ↔
    s.toList ≠ [] ∧ Text.trim s.toList = s.toList ∧
      ∃ name rest, read? s.toList = some (name, rest) ∧ skipGap false rest = [] := by
  unfold isValid
  rcases hread : read? s.toList with _ | ⟨name, rest⟩ <;> simp [hread, and_assoc]

theorem exists_read?_of_isValid {s : String} (h : isValid s = true) :
    ∃ name rest, read? s.toList = some (name, rest) ∧ skipGap false rest = [] :=
  (isValid_iff_exists_read?.mp h).2.2

end Read

end Cascade.Identifier
