/-! # Outputs and sinks

Texts are written to an *output*, which may refuse any of them. Nothing else is known about outputs,
so it can matter how a text is cut into chunks.

A *sink* is an output that collects text, up to a number of bytes in UTF-8 if it has a limit. A text
that does not fit is cut between two characters. For a sink, writing some texts in turn is the same
as writing all of them at once (`Sink.writeAll_eq_write`), so here the chunks do not matter. -/

namespace Cascade

/-- What texts can be written to. Of a text that it does not take whole it may keep any part. -/
class Output (σ : Type) where
  /-- The output after a text has been written to it, and whether it took the whole text. -/
  write : σ → String → σ × Bool

/-- The output after some texts have been written to it, up to the first one that it did not take
whole, and whether it took all of them. -/
def Output.writeAll {σ : Type} [Output σ] (output : σ) : List String → σ × Bool
  | [] => (output, true)
  | chunk :: chunks =>
    match write output chunk with
    | (output, true) => writeAll output chunks
    | (output, false) => (output, false)

/-- A text that grows, and the number of bytes that it may not exceed by growing. -/
structure Sink where
  text : String
  limit? : Option Nat
  deriving DecidableEq, Repr

namespace Sink

/-- The empty sink without a limit. -/
instance : EmptyCollection Sink := ⟨⟨"", none⟩⟩

@[simp] theorem text_empty : (∅ : Sink).text = "" := rfl

@[simp] theorem limit?_empty : (∅ : Sink).limit? = none := rfl

/-- The longest beginning of a text that takes no more than the given number of bytes. -/
def fitting (room : Nat) : List Char → List Char
  | [] => []
  | c :: cs => if c.utf8Size ≤ room then c :: fitting (room - c.utf8Size) cs else []

/-- The number of bytes that a sink with a limit can still take. -/
def room? (sink : Sink) : Option Nat := sink.limit?.map (· - sink.text.utf8ByteSize)

/-- The sink after a text has been written to it, and whether it took the whole text. -/
def write (sink : Sink) (chunk : String) : Sink × Bool :=
  match sink.room? with
  | none => ({ sink with text := sink.text ++ chunk }, true)
  | some room =>
    ({ sink with text := sink.text ++ String.ofList (fitting room chunk.toList) },
      decide (chunk.utf8ByteSize ≤ room))

@[default_instance]
instance : Output Sink := ⟨write⟩

theorem output_write (sink : Sink) (chunk : String) : Output.write sink chunk = sink.write chunk :=
  rfl

/-! ### Bytes -/

/-- The number of bytes of a text in UTF-8. -/
def bytes : List Char → Nat
  | [] => 0
  | c :: cs => c.utf8Size + bytes cs

theorem utf8ByteSize_ofList (cs : List Char) : (String.ofList cs).utf8ByteSize = bytes cs := by
  induction cs with
  | nil => rfl
  | cons c cs ih =>
    rw [String.ofList_cons, String.utf8ByteSize_append, String.utf8ByteSize_singleton, ih,
      bytes]

theorem bytes_toList (s : String) : bytes s.toList = s.utf8ByteSize := by
  rw [← utf8ByteSize_ofList, String.ofList_toList]

/-! ### Beginnings that fit -/

theorem fitting_append {room : Nat} {cs ds : List Char} :
    fitting room (cs ++ ds) =
      if bytes cs ≤ room then cs ++ fitting (room - bytes cs) ds else fitting room cs := by
  induction cs generalizing room with
  | nil => simp [bytes]
  | cons c cs ih =>
    rw [List.cons_append, fitting, fitting, bytes, ih]
    by_cases h : c.utf8Size ≤ room
    · have hle : bytes cs ≤ room - c.utf8Size ↔ c.utf8Size + bytes cs ≤ room := by omega
      simp only [h, if_true, hle, Nat.sub_sub]
      split <;> rfl
    · have hgt : ¬ c.utf8Size + bytes cs ≤ room := by omega
      simp only [h, hgt, if_false]

theorem fitting_of_le {room : Nat} {cs : List Char} (h : bytes cs ≤ room) :
    fitting room cs = cs := by
  have happ : fitting room (cs ++ []) = _ := fitting_append
  rwa [List.append_nil, if_pos h, fitting, List.append_nil] at happ

/-! ### Writing in chunks -/

theorem write_of_unlimited {sink : Sink} {s : String} (h : sink.limit? = none) :
    sink.write s = ({ sink with text := sink.text ++ s }, true) := by
  simp [write, room?, h]

theorem write_empty (sink : Sink) : sink.write "" = (sink, true) := by
  obtain ⟨text, _ | limit⟩ := sink <;> simp [write, room?, fitting]

theorem write_append_of_complete {sink after : Sink} {s t : String}
    (h : sink.write s = (after, true)) : sink.write (s ++ t) = after.write t := by
  obtain ⟨text, _ | limit⟩ := sink
  · obtain rfl : _ = after := congrArg Prod.fst h
    simp [write, room?, String.append_assoc]
  · have hroom : s.utf8ByteSize ≤ limit - text.utf8ByteSize := by
      simpa [write, room?] using congrArg Prod.snd h
    obtain rfl : _ = after := congrArg Prod.fst h
    have hfit : fitting (limit - text.utf8ByteSize) s.toList = s.toList :=
      fitting_of_le (by rwa [bytes_toList])
    have hsum : s.utf8ByteSize + t.utf8ByteSize ≤ limit - text.utf8ByteSize ↔
        t.utf8ByteSize ≤ limit - (text.utf8ByteSize + s.utf8ByteSize) := by omega
    simp [write, room?, fitting_append, hroom, hfit, bytes_toList, Nat.sub_sub,
      String.append_assoc, String.ofList_append, hsum]

theorem write_append_of_incomplete {sink after : Sink} {s t : String}
    (h : sink.write s = (after, false)) : sink.write (s ++ t) = (after, false) := by
  obtain ⟨text, _ | limit⟩ := sink
  · exact absurd (congrArg Prod.snd h) (by simp [write, room?])
  · have hroom : ¬ s.utf8ByteSize ≤ limit - text.utf8ByteSize := by
      simpa [write, room?] using congrArg Prod.snd h
    obtain rfl : _ = after := congrArg Prod.fst h
    have hbytes : ¬ bytes s.toList ≤ limit - text.utf8ByteSize := by rwa [bytes_toList]
    have hsum : ¬ s.utf8ByteSize + t.utf8ByteSize ≤ limit - text.utf8ByteSize := by omega
    simp [write, room?, fitting_append, hbytes, hsum]

/-- **Writing in chunks is writing at once.** -/
theorem writeAll_eq_write (sink : Sink) (chunks : List String) :
    Output.writeAll sink chunks = sink.write (String.join chunks) := by
  induction chunks generalizing sink with
  | nil => exact (write_empty sink).symm
  | cons chunk chunks ih =>
    rw [String.join_cons, Output.writeAll, output_write]
    rcases h : sink.write chunk with ⟨after, _ | _⟩
    · rw [write_append_of_incomplete h]
    · rw [write_append_of_complete h]
      exact ih after

end Sink

end Cascade
