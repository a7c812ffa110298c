import Cascade.Proofs.Outcome

/-! # Streaming

A sink with a limit keeps of every text that is written to it the longest beginning by which it can
grow (`Sink.exists_isCut`). So does a sheet that is written to it: however its text is cut into
chunks, the sink keeps the longest beginning of the whole text that fits, and nothing of a sheet
that is refused (`Sheet.writeTo_eq_compile_cut`). -/

namespace Cascade

namespace Sink

/-- The sink can take the text without growing beyond its limit. The empty text does not make it
grow. -/
def Fits (sink : Sink) (s : String) : Prop :=
  s = "" ∨ ∀ limit, sink.limit? = some limit →
    sink.text.utf8ByteSize + s.utf8ByteSize ≤ limit

/-- The longest beginning of a text that a sink can take. -/
structure IsCut (sink : Sink) (s kept : String) : Prop where
  isPrefix : kept.toList <+: s.toList
  fits : sink.Fits kept
  longest : ∀ p : String, p.toList <+: s.toList → sink.Fits p → p.length ≤ kept.length

/-! ### Beginnings within a number of bytes -/

theorem fitting_prefix (room : Nat) (cs : List Char) : fitting room cs <+: cs := by
  induction cs generalizing room with
  | nil => exact List.prefix_rfl
  | cons c cs ih =>
    rw [fitting]
    split
    · exact (List.prefix_cons_inj c).mpr (ih _)
    · exact List.nil_prefix

theorem bytes_fitting_le (room : Nat) (cs : List Char) : bytes (fitting room cs) ≤ room := by
  induction cs generalizing room with
  | nil => exact Nat.zero_le room
  | cons c cs ih =>
    rw [fitting]
    split
    · have hle := ih (room - c.utf8Size)
      rw [bytes]
      omega
    · exact Nat.zero_le room

theorem prefix_fitting {room : Nat} {p cs : List Char} (h : p <+: cs) (hp : bytes p ≤ room) :
    p <+: fitting room cs := by
  induction cs generalizing room p with
  | nil => exact h
  | cons c cs ih =>
    rcases p with _ | ⟨d, p⟩
    · exact List.nil_prefix
    obtain ⟨rfl, hpre⟩ := List.cons_prefix_cons.mp h
    rw [bytes] at hp
    have hd : d.utf8Size ≤ room := by omega
    rw [fitting, if_pos hd]
    exact (List.prefix_cons_inj d).mpr (ih hpre (by omega))

/-! ### One write -/

variable {sink : Sink} {s kept : String}

theorem fits_of_unlimited (h : sink.limit? = none) (s : String) : sink.Fits s := by
  refine .inr fun limit hlimit => ?_
  cases h.symm.trans hlimit

theorem fits_iff {limit : Nat} (h : sink.limit? = some limit) :
    sink.Fits s ↔ s.utf8ByteSize ≤ limit - sink.text.utf8ByteSize := by
  have hempty : s = "" ↔ s.utf8ByteSize = 0 := String.utf8ByteSize_eq_zero_iff.symm
  simp only [Fits, h, Option.some.injEq, forall_eq', hempty]
  omega

theorem isCut_self (h : sink.Fits s) : sink.IsCut s s where
  isPrefix := List.prefix_rfl
  fits := h
  longest p hp _ := by
    rw [← String.length_toList, ← String.length_toList]
    exact hp.length_le

theorem IsCut.eq_self_iff (h : sink.IsCut s kept) : kept = s ↔ sink.Fits s := by
  constructor
  · rintro rfl
    exact h.fits
  · intro hs
    have hle := h.longest s List.prefix_rfl hs
    rw [← String.length_toList, ← String.length_toList] at hle
    exact String.toList_injective (h.isPrefix.eq_of_length_le hle)

theorem IsCut.unique {kept' : String} (h : sink.IsCut s kept) (h' : sink.IsCut s kept') :
    kept = kept' := by
  have hle := h'.longest kept h.isPrefix h.fits
  have hge := h.longest kept' h'.isPrefix h'.fits
  rw [← String.length_toList, ← String.length_toList] at hle hge
  have hpre := List.prefix_of_prefix_length_le h.isPrefix h'.isPrefix hle
  exact String.toList_injective (hpre.eq_of_length_le hge)

theorem IsCut.eq_empty {limit : Nat} (h : sink.IsCut s kept) (hlimit : sink.limit? = some limit)
    (hlt : limit < sink.text.utf8ByteSize) : kept = "" := by
  refine h.fits.resolve_right fun hle => ?_
  have hle := hle limit hlimit
  omega

theorem isCut_fitting {limit : Nat} (h : sink.limit? = some limit) (s : String) :
    sink.IsCut s (String.ofList (fitting (limit - sink.text.utf8ByteSize) s.toList)) where
  isPrefix := by
    rw [String.toList_ofList]
    exact fitting_prefix _ _
  fits := by
    rw [fits_iff h, utf8ByteSize_ofList]
    exact bytes_fitting_le _ _
  longest p hp hfits := by
    rw [fits_iff h, ← bytes_toList] at hfits
    rw [← String.length_toList, ← String.length_toList, String.toList_ofList]
    exact (prefix_fitting hp hfits).length_le

/-- **A sink keeps the longest beginning of a text that it can take**, and takes the text if that is
all of it. -/
theorem exists_isCut (sink : Sink) (s : String) : ∃ kept, sink.IsCut s kept ∧
    (sink.write s).1 = { sink with text := sink.text ++ kept } ∧
      ((sink.write s).2 = true ↔ kept = s) := by
  rcases Option.eq_none_or_eq_some sink.limit? with hlimit | ⟨limit, hlimit⟩
  · refine ⟨s, isCut_self (fits_of_unlimited hlimit s), ?_⟩
    rw [write_of_unlimited hlimit]
    exact ⟨rfl, iff_of_true rfl rfl⟩
  · have hcut := isCut_fitting hlimit s
    refine ⟨_, hcut, ?_⟩
    rw [hcut.eq_self_iff, fits_iff hlimit]
    simp [write, room?, hlimit]

end Sink

namespace Sheet

/-- **Streaming a sheet into a sink is compiling it and then cutting its text.** Every single write
keeps the longest beginning that the sink can take, and so does the whole of them, whatever the
chunks are. -/
theorem writeTo_eq_compile_cut (sheet : Sheet) (options : Options) (sink : Sink) :
    (∀ chunk, ∃ kept, sink.IsCut chunk kept ∧
      (sink.write chunk).1 = { sink with text := sink.text ++ kept } ∧
        ((sink.write chunk).2 = true ↔ kept = chunk)) ∧
    (∀ e, sheet.compile options = .error e →
      (sheet.writeTo options sink).result = .error e ∧
        (sheet.writeTo options sink).sink = sink) ∧
    ∀ text, sheet.compile options = .ok text →
      (sink.Fits text → (sheet.writeTo options sink).result = .ok () ∧
        (sheet.writeTo options sink).sink = { sink with text := sink.text ++ text }) ∧
      (¬ sink.Fits text → (sheet.writeTo options sink).result = .error .refused ∧
        ∃ kept, sink.IsCut text kept ∧
          (sheet.writeTo options sink).sink = { sink with text := sink.text ++ kept } ∧
          ∀ limit, sink.limit? = some limit → limit < sink.text.utf8ByteSize → kept = "") ∧
      (sink.limit? = none → sink.Fits text) ∧
      ∀ chunks, String.join chunks = text →
        (Output.writeAll sink chunks).1 = (sheet.writeTo options sink).sink ∧
          ((Output.writeAll sink chunks).2 = true ↔
            (sheet.writeTo options sink).result = .ok ()) := by
  refine ⟨sink.exists_isCut, fun e he => ?_, fun text htext => ?_⟩
  · exact writeTo_of_error (compile_eq_error_iff.mp he)
  obtain ⟨blocks, hblocks, rfl⟩ := compile_eq_ok_iff.mp htext
  obtain ⟨hsink, hresult⟩ := @writeTo_sink_of_ok sheet options blocks sink hblocks
  obtain ⟨kept, hcut, hwrite, htook⟩ := sink.exists_isCut (options.format.render blocks)
  rw [hsink, hresult]
  refine ⟨fun hfits => ?_, fun hfits => ?_, fun hlimit => Sink.fits_of_unlimited hlimit _,
    fun chunks hchunks => ?_⟩
  · obtain rfl := hcut.eq_self_iff.mpr hfits
    rw [if_pos (htook.mpr rfl)]
    exact ⟨rfl, hwrite⟩
  · rw [← hcut.eq_self_iff, ← htook] at hfits
    rw [if_neg hfits]
    exact ⟨rfl, kept, hcut, hwrite, fun limit hlimit hlt => hcut.eq_empty hlimit hlt⟩
  · rw [Sink.writeAll_eq_write, hchunks]
    refine ⟨rfl, ?_⟩
    split <;> simp [*]

/-- A limit inside of the second character of the text, and a sheet that has no text. -/
theorem writeTo_eq_compile_cut_inside_character :
    ∃ sheet faulty : Sheet, ∃ sink : Sink, sheet.compile {} = .ok "aé{}" ∧
      (sheet.writeTo {} sink).result = .error .refused ∧
      (sheet.writeTo {} sink).sink = ⟨"xa", some 3⟩ ∧
      faulty.compile {} = .error (.blankSelector 0) ∧
      (faulty.writeTo {} sink).result = .error (.blankSelector 0) ∧
      (faulty.writeTo {} sink).sink = sink := by
  let sheet : Sheet := ⟨[{ selector := "aé" }]⟩
  let faulty : Sheet := ⟨[{ selector := " " }]⟩
  let sink : Sink := ⟨"x", some 3⟩
  have htext : sheet.compile {} = .ok "aé{}" := rfl
  have herror : faulty.compile {} = .error (.blankSelector 0) := rfl
  have hfits : ¬ sink.Fits "aé{}" := by
    rw [Sink.fits_iff rfl]
    decide
  obtain ⟨hresult, kept, hcut, hsink, -⟩ :=
    ((writeTo_eq_compile_cut sheet {} sink).2.2 _ htext).2.1 hfits
  have hlongest := @Sink.isCut_fitting sink 3 rfl "aé{}"
  obtain rfl := hcut.unique hlongest
  exact ⟨sheet, faulty, sink, htext, hresult, hsink, herror,
    (writeTo_eq_compile_cut faulty {} sink).2.1 _ herror⟩

end Sheet

end Cascade
