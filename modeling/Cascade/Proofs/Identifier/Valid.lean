import Cascade.Proofs.Identifier.Grammar

/-! # Valid names

The scanner is tied to the grammar at every place that it can be in. On the way it has an escape
half read, and what it reads completes it to a name (`Place.Pending.name_of_splitName`). The other
way round, the scanner may read more than a name of the grammar: white space that the grammar takes
for the gap after the name may belong to the last escape. Then still only a gap is left
(`Name.leavesGap`).

Main statement: the valid texts are those in which one identifier stands between two gaps
(`isValid_iff_token_between_gaps`). -/

namespace Cascade

/-- A trimmed text is one that neither begins nor ends with white space. -/
theorem Text.trim_eq_self_iff {cs : List Char} (hne : cs ≠ []) :
    trim cs = cs ↔ isSpace (cs.head hne) = false ∧ isSpace (cs.getLast hne) = false := by
  have hleft : cs.dropWhile isSpace = cs ↔ isSpace (cs.head hne) = false := by
    rw [List.dropWhile_eq_self_iff]
    simp [List.head_eq_getElem, List.length_pos_iff, hne]
  have hright : trimRight cs = cs ↔ isSpace (cs.getLast hne) = false := by
    change cs.rdropWhile isSpace = cs ↔ _
    rw [List.rdropWhile_eq_self_iff]
    simp [hne]
  rw [← hleft, ← hright]
  constructor
  · intro h
    -- what is trimmed is no longer than what is left of it at either end
    have hlength := (List.rdropWhile_prefix isSpace (cs.dropWhile isSpace)).length_le
    change (trim cs).length ≤ _ at hlength
    rw [h] at hlength
    have hdrop := (List.dropWhile_suffix isSpace).eq_of_length_le hlength
    rw [trim, hdrop] at h
    exact ⟨hdrop, h⟩
  · rintro ⟨hdrop, htrim⟩
    rw [trim, hdrop, htrim]

namespace Identifier

/-! ### What is read is a name -/

/-- What a place has read of an escape that may go on, and what is ahead of it. -/
inductive Place.Pending (ahead : List Char) : Place → List Char → Prop where
  | between : Pending ahead between []
  | escape (h : opensEscape ahead = true) : Pending ahead escape ['\\']
  | hex {more : Nat} {digits : List Char} (hne : digits ≠ []) (hlength : digits.length + more = 6)
      (hdigits : ∀ c ∈ digits, isHex c = true) : Pending ahead (hex more) ('\\' :: digits)
  | carriageReturn {digits : List Char} (hne : digits ≠ []) (hlength : digits.length ≤ 6)
      (hdigits : ∀ c ∈ digits, isHex c = true) :
      Pending ahead carriageReturn ('\\' :: (digits ++ ['\r']))

namespace Place

variable {place next : Place} {c : Char} {ahead pending after cs name rest : List Char}

/-- What is pending may end anywhere but after a backslash. -/
theorem Pending.name_append (h : Pending ahead place pending) (hplace : place ≠ .escape)
    (hname : Name after cs) : Name after (pending ++ cs) := by
  cases h with
  | between => exact hname
  | escape => exact absurd rfl hplace
  | @hex more digits hne hlength hdigits =>
    have hpiece : Piece (cs ++ after) ('\\' :: (digits ++ [])) :=
      .escape (.hex hne (by omega) hdigits .none)
    rw [List.append_nil] at hpiece
    exact .cons hpiece hname
  | carriageReturn hne hlength hdigits =>
    exact .cons (.escape (.hex hne hlength hdigits (.one rfl))) hname

theorem exists_pending_of_afterPlain (hc : afterPlain c ahead = some next) :
    ∃ pending, Pending ahead next pending ∧
      ∀ after name, Name after (pending ++ name) → Name after (c :: name) := by
  unfold afterPlain at hc
  split_ifs at hc with hslash hopens hchar
  · obtain rfl := Option.some.inj hc
    exact ⟨_, .escape hopens, fun _ _ hname => hslash ▸ hname⟩
  · obtain rfl := Option.some.inj hc
    exact ⟨_, .between, fun _ _ hname => .cons (.char hchar) hname⟩

/-- One more character is pending after it, or a piece ends with it or before it. -/
theorem Pending.step (h : Pending (c :: ahead) place pending)
    (hc : place.after c ahead = some next) : ∃ pending', Pending ahead next pending' ∧
      ∀ after name, Name after (pending' ++ name) → Name after (pending ++ c :: name) := by
  -- where a place between two pieces would go on, what is pending is a piece
  have hplain (hplace : place ≠ .escape) (hc : afterPlain c ahead = some next) :
      ∃ pending', Pending ahead next pending' ∧
        ∀ after name, Name after (pending' ++ name) → Name after (pending ++ c :: name) := by
    obtain ⟨pending', hpending', hname⟩ := exists_pending_of_afterPlain hc
    exact ⟨pending', hpending', fun after name h' => h.name_append hplace (hname after name h')⟩
  cases h with
  | between => exact hplain (by simp) hc
  | escape hopens =>
    rw [Place.after] at hc
    obtain rfl := Option.some.inj hc
    split_ifs with hhex
    · refine ⟨['\\', c], .hex (List.cons_ne_nil c []) rfl (by simpa using hhex), ?_⟩
      exact fun after name hname => hname
    · have hline : isNewline c = false := by simpa [opensEscape] using hopens
      refine ⟨[], .between, fun after name hname => ?_⟩
      have hpiece : Piece (name ++ after) ['\\', c] :=
        .escape (.other (eq_false_of_ne_true hhex) hline)
      have hcons : Name after (['\\', c] ++ name) := hname.cons hpiece
      exact hcons
  | @hex more digits hne hlength hdigits =>
    rw [Place.after] at hc
    split_ifs at hc with hhex hreturn hspace
    · obtain rfl := Option.some.inj hc
      obtain ⟨hhex, hmore⟩ := Bool.and_eq_true_iff.mp hhex
      have hmore : more ≠ 0 := by simpa using hmore
      have hlength' : (digits ++ [c]).length + (more - 1) = 6 := by
        rw [List.length_append, List.length_singleton]
        omega
      have hdigits' : ∀ d ∈ digits ++ [c], isHex d = true := by
        intro d hd
        rcases List.mem_append.mp hd with hd | hd
        · exact hdigits d hd
        · rw [List.mem_singleton.mp hd]
          exact hhex
      refine ⟨'\\' :: (digits ++ [c]), .hex (by simp) hlength' hdigits', fun after name hname => ?_⟩
      simpa using hname
    · obtain rfl := Option.some.inj hc
      subst hreturn
      refine ⟨'\\' :: (digits ++ ['\r']), .carriageReturn hne (by omega) hdigits, ?_⟩
      intro after name hname
      simpa using hname
    · obtain rfl := Option.some.inj hc
      refine ⟨[], .between, fun after name hname => ?_⟩
      have hpiece : Piece (name ++ after) ('\\' :: (digits ++ [c])) :=
        .escape (.hex hne (by omega) hdigits (.one hspace))
      have hcons := hname.cons hpiece
      simpa using hcons
    · exact hplain (by simp) hc
  | @carriageReturn digits hne hlength hdigits =>
    rw [Place.after] at hc
    split_ifs at hc with hfeed
    · obtain rfl := Option.some.inj hc
      subst hfeed
      refine ⟨[], .between, fun after name hname => ?_⟩
      have hpiece : Piece (name ++ after) ('\\' :: (digits ++ ['\r', '\n'])) :=
        .escape (.hex hne hlength hdigits .pair)
      have hcons := hname.cons hpiece
      simpa using hcons
    · exact hplain (by simp) hc

/-- **What is read completes what is pending to a name.** -/
theorem Pending.name_of_splitName (h : Pending cs place pending)
    (hsplit : splitName place cs = (name, rest)) : Name rest (pending ++ name) := by
  induction cs generalizing place pending name with
  | nil =>
    obtain ⟨rfl, rfl⟩ := Prod.mk.inj hsplit
    by_cases hplace : place = .escape
    · subst hplace
      cases h with
      | escape => exact .cons (.escape (.atEnd rfl)) .nil
    · exact h.name_append hplace .nil
  | cons c cs ih =>
    cases hc : place.after c cs with
    | none =>
      obtain ⟨rfl, rfl⟩ := Prod.mk.inj ((splitName_cons_of_none hc).symm.trans hsplit)
      have hplace : place ≠ .escape := by
        rintro rfl
        cases hc
      exact h.name_append hplace .nil
    | some next =>
      obtain ⟨rfl, hrest⟩ := Prod.mk.inj ((splitName_cons_of_some hc).symm.trans hsplit)
      obtain ⟨pending', hpending', hname⟩ := h.step hc
      exact hname rest _ (ih hpending' (Prod.ext rfl hrest))

end Place

/-! ### A name is read -/

/-- Nothing but a gap is left of the text when the rest of a name is read from the place. -/
def Place.LeavesGap (place : Place) (cs : List Char) : Prop :=
  skipGap false (splitName place cs).2 = []

section LeavesGap
variable {place next : Place} {c : Char} {cs digits space after : List Char} {more : Nat}

theorem Place.leavesGap_cons (h : place.after c cs = some next) :
    place.LeavesGap (c :: cs) ↔ next.LeavesGap cs := by
  rw [LeavesGap, splitName_cons_of_some h]
  rfl

theorem Place.leavesGap_congr {place' : Place} (h : place.after c cs = place'.after c cs) :
    place.LeavesGap (c :: cs) ↔ place'.LeavesGap (c :: cs) := by
  rw [LeavesGap, LeavesGap, splitName, splitName, h]

theorem between_after_of_isNameChar (h : isNameChar c = true) :
    Place.between.after c cs = some .between := by
  rw [Place.after, Place.afterPlain, if_neg (ne_backslash_of_isNameChar h), if_pos h]

theorem between_after_of_not (hc : isNameChar c = false) (hslash : c ≠ '\\') :
    Place.between.after c cs = none := by
  rw [Place.after, Place.afterPlain, if_neg hslash, if_neg (Bool.not_eq_true _ ▸ hc)]

theorem between_leavesGap_of_skipGap (h : skipGap false cs = []) : Place.between.LeavesGap cs := by
  rcases cs with _ | ⟨c, cs⟩
  · exact h
  have hnone : Place.between.after c cs = none := by
    by_cases hc : isSeparator c = true
    · refine between_after_of_not (not_isNameChar_of_isSeparator hc) ?_
      rintro rfl
      exact absurd hc (by decide)
    · by_cases hstart : ∃ ds, c = '/' ∧ cs = '*' :: ds
      · obtain ⟨ds, rfl, rfl⟩ := hstart
        rfl
      · rw [skipGap, if_neg hc] at h
        · cases h
        · rintro ds rfl rfl
          exact hstart ⟨ds, rfl, rfl⟩
  rw [Place.LeavesGap, splitName_cons_of_none hnone]
  exact h

/-- A separator is not read between two pieces, so it belongs to the gap. -/
theorem between_leavesGap_of_separator (hc : isSeparator c = true)
    (h : Place.between.LeavesGap (c :: cs)) : Place.between.LeavesGap cs := by
  have hslash : c ≠ '\\' := by
    rintro rfl
    exact absurd hc (by decide)
  have hnone : Place.between.after c cs = none :=
    between_after_of_not (not_isNameChar_of_isSeparator hc) hslash
  rw [Place.LeavesGap, splitName_cons_of_none hnone, skipGap_separator hc] at h
  exact between_leavesGap_of_skipGap h

/-- Whoever reads on from inside an escape leaves no more than whoever takes it for closed. -/
theorem Place.leavesGap_of_between (h : between.LeavesGap cs) (hplace : place ≠ .escape) :
    place.LeavesGap cs := by
  induction cs generalizing place with
  | nil => exact h
  | cons c cs ih =>
    cases place with
    | between => exact h
    | escape => exact absurd rfl hplace
    | hex more =>
      by_cases hhex : (isHex c && more != 0) = true
      · have hname := isNameChar_of_isHex (Bool.and_eq_true_iff.mp hhex).1
        have hnext : (hex more).after c cs = some (hex (more - 1)) := by rw [Place.after, if_pos hhex]
        rw [leavesGap_cons hnext]
        rw [leavesGap_cons (between_after_of_isNameChar hname)] at h
        exact ih h (by simp)
      by_cases hspace : isSeparator c = true
      · have hrest := between_leavesGap_of_separator hspace h
        by_cases hreturn : c = '\r'
        · have hnext : (hex more).after c cs = some carriageReturn := by
            rw [Place.after, if_neg hhex, if_pos hreturn]
          rw [leavesGap_cons hnext]
          exact ih hrest (by simp)
        · have hnext : (hex more).after c cs = some between := by
            rw [Place.after, if_neg hhex, if_neg hreturn, if_pos hspace]
          rwa [leavesGap_cons hnext]
      · have hreturn : c ≠ '\r' := by
          rintro rfl
          exact hspace rfl
        have hplain : (hex more).after c cs = between.after c cs := by
          change (hex more).after c cs = afterPlain c cs
          rw [Place.after, if_neg hhex, if_neg hreturn, if_neg hspace]
        rwa [leavesGap_congr hplain]
    | carriageReturn =>
      by_cases hfeed : c = '\n'
      · subst hfeed
        have hrest := between_leavesGap_of_separator rfl h
        have hnext : carriageReturn.after '\n' cs = some between := rfl
        rwa [leavesGap_cons hnext]
      · have hplain : carriageReturn.after c cs = between.after c cs := by
          change carriageReturn.after c cs = afterPlain c cs
          rw [Place.after, if_neg hfeed]
        rwa [leavesGap_congr hplain]

theorem hex_leavesGap_append_digits (hdigits : ∀ c ∈ digits, isHex c = true)
    (h : (Place.hex more).LeavesGap cs) :
    (Place.hex (more + digits.length)).LeavesGap (digits ++ cs) := by
  induction digits with
  | nil => exact h
  | cons c digits ih =>
    obtain ⟨hc, hdigits⟩ := List.forall_mem_cons.mp hdigits
    have hnext : (Place.hex (more + (c :: digits).length)).after c (digits ++ cs) =
        some (.hex (more + digits.length)) := by
      rw [Place.after, List.length_cons, if_pos (by simp [hc])]
      rfl
    rw [List.cons_append, Place.leavesGap_cons hnext]
    exact ih hdigits

theorem hex_leavesGap_append_space (hspace : EscapeSpace space)
    (h : Place.between.LeavesGap cs) : (Place.hex more).LeavesGap (space ++ cs) := by
  cases hspace with
  | none => exact Place.leavesGap_of_between h (by simp)
  | @one c hc =>
    have hhex : ¬ (isHex c && more != 0) = true := by
      intro hhex
      have hnot := not_isSeparator_of_isHex (Bool.and_eq_true_iff.mp hhex).1
      rw [hc] at hnot
      cases hnot
    by_cases hreturn : c = '\r'
    · have hnext : (Place.hex more).after c cs = some .carriageReturn := by
        rw [Place.after, if_neg hhex, if_pos hreturn]
      rw [List.singleton_append, Place.leavesGap_cons hnext]
      exact Place.leavesGap_of_between h (by simp)
    · have hnext : (Place.hex more).after c cs = some .between := by
        rw [Place.after, if_neg hhex, if_neg hreturn, if_pos hc]
      rwa [List.singleton_append, Place.leavesGap_cons hnext]
  | pair => exact h

theorem between_leavesGap_append_escape {escape : List Char} (he : Escape (cs ++ after) escape)
    (h : Place.between.LeavesGap (cs ++ after)) :
    Place.between.LeavesGap (escape ++ (cs ++ after)) := by
  have hopens {c : Char} (hc : isNewline c = false) (ds : List Char) :
      Place.between.after '\\' (c :: ds) = some .escape := by
    rw [Place.after, Place.afterPlain, if_pos rfl, opensEscape, hc]
    rfl
  cases he with
  | @hex digits space hne hlength hdigits hspace =>
    obtain ⟨c, digits, rfl⟩ := List.exists_cons_of_ne_nil hne
    obtain ⟨hc, hdigits⟩ := List.forall_mem_cons.mp hdigits
    have hnext (ds : List Char) : Place.escape.after c ds = some (.hex 5) := by
      rw [Place.after, if_pos hc]
    rw [List.length_cons] at hlength
    obtain ⟨more, hmore⟩ : ∃ more, 5 = more + digits.length :=
      Nat.exists_eq_add_of_le' (by omega)
    simp only [List.cons_append, List.append_assoc]
    rw [Place.leavesGap_cons (hopens (not_isNewline_of_isHex hc) _), Place.leavesGap_cons (hnext _),
      hmore]
    exact hex_leavesGap_append_digits hdigits (hex_leavesGap_append_space hspace h)
  | @other c hhex hline =>
    have hnext : Place.escape.after c (cs ++ after) = some .between := by
      rw [Place.after, if_neg (Bool.not_eq_true _ ▸ hhex)]
    simp only [List.cons_append, List.nil_append]
    rwa [Place.leavesGap_cons (hopens hline _), Place.leavesGap_cons hnext]
  | atEnd hend =>
    rw [hend]
    rfl

/-- **Where a name and then a gap stand, only a gap is left when the name is read.** -/
theorem Name.leavesGap (h : Name after cs) (hafter : skipGap false after = []) :
    Place.between.LeavesGap (cs ++ after) := by
  induction h with
  | nil => exact between_leavesGap_of_skipGap hafter
  | cons hp _ ih =>
    rw [List.append_assoc]
    cases hp with
    | char hc => exact (Place.leavesGap_cons (between_after_of_isNameChar hc)).mpr ih
    | escape he => exact between_leavesGap_append_escape he ih

end LeavesGap

/-! ### Valid texts -/

section Read
variable {cs before name after : List Char}

/-- **What is read is an identifier between two gaps.** -/
theorem exists_gap_of_read? (h : read? cs = some (name, after)) (hafter : skipGap false after = []) :
    ∃ before, cs = before ++ name ++ after ∧ Gap before ∧ Token after name := by
  obtain ⟨hstart, hsplit⟩ := read?_eq_some_iff.mp h
  have hwhole : name ++ after = skipGap false cs := by
    have happend := splitName_append .between (skipGap false cs)
    rwa [hsplit] at happend
  have hname : Name after name := Place.Pending.between.name_of_splitName hsplit
  have htoken : Token after name := hname.token hafter (hwhole ▸ hstart)
  rcases exists_gap cs with ⟨before, hbefore, hcs⟩ | hopen
  · refine ⟨before, ?_, hbefore, htoken⟩
    rw [List.append_assoc, hwhole]
    exact hcs
  · rw [hopen.skipGap_eq_nil] at hstart
    cases hstart

/-- **An identifier between two gaps is read**, perhaps with white space of the second one. -/
theorem exists_read?_of_token (hbefore : Gap before) (hname : Token after name)
    (hafter : skipGap false after = []) : ∃ name' after',
      read? (before ++ name ++ after) = some (name', after') ∧ skipGap false after' = [] := by
  have hskip : skipGap false (before ++ name ++ after) = name ++ after := by
    rw [List.append_assoc, hbefore.skipGap_append]
    exact skipGap_of_startsIdentifier hname.startsIdentifier_append
  refine ⟨_, _, read?_eq_some_iff.mpr ⟨?_, rfl⟩, ?_⟩
  · rw [hskip]
    exact hname.startsIdentifier_append
  · rw [hskip]
    exact hname.name.leavesGap hafter

end Read

/-- **The valid texts are those in which one identifier stands between two gaps** and that neither
begin nor end with white space. The comment at the end may be open. -/
theorem isValid_iff_token_between_gaps (s : String) : isValid s = true ↔
    ∃ hne : s.toList ≠ [], Text.isSpace (s.toList.head hne) = false ∧
      Text.isSpace (s.toList.getLast hne) = false ∧
      ∃ before name after, s.toList = before ++ name ++ after ∧
        Gap before ∧ Token after name ∧ (Gap after ∨ OpenGap after) := by
  rw [isValid_iff_exists_read?]
  constructor
  · rintro ⟨hne, htrim, name, after, hread, hafter⟩
    obtain ⟨hhead, hlast⟩ := (Text.trim_eq_self_iff hne).mp htrim
    obtain ⟨before, hs, hbefore, hname⟩ := exists_gap_of_read? hread hafter
    exact ⟨hne, hhead, hlast, before, name, after, hs, hbefore, hname,
      skipGap_eq_nil_iff.mp hafter⟩
  · rintro ⟨hne, hhead, hlast, before, name, after, hs, hbefore, hname, hafter⟩
    refine ⟨hne, (Text.trim_eq_self_iff hne).mpr ⟨hhead, hlast⟩, ?_⟩
    rw [hs]
    exact exists_read?_of_token hbefore hname (skipGap_eq_nil_iff.mpr hafter)

end Identifier

end Cascade
