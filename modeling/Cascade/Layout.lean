import Cascade.Block

/-! # Layout

The text of a list of blocks, cut into the chunks in which it is written. -/

namespace Cascade

namespace Block

/-- The chunks of a block in compact text. -/
def compactChunks (b : Block) : List String :=
  b.selector :: r"{" :: b.declarations.flatMap (fun d => [d.name, ":", d.value, ";"]) ++ [r"}"]

/-- The chunks of a block in pretty text. A block without declarations takes one line. -/
def prettyChunks (b : Block) : List String :=
  match b.declarations with
  | [] => [b.selector, " {}\n"]
  | ds =>
    b.selector :: (r" {" ++ "\n") ::
      ds.flatMap (fun d => ["  ", d.name, ": ", d.value, ";\n"]) ++ [r"}" ++ "\n"]

/-- The chunks of a block. -/
def chunks (b : Block) : Format → List String
  | .compact => b.compactChunks
  | .pretty => b.prettyChunks

end Block

namespace Format

/-- The chunks between two blocks. -/
def separator : Format → List String
  | compact => []
  | pretty => ["\n"]

/-- The chunks of a list of blocks. -/
def chunks (format : Format) (blocks : List Block) : List String :=
  format.separator.intercalate (blocks.map (·.chunks format))

/-- The text of a list of blocks. -/
def render (format : Format) (blocks : List Block) : String := String.join (format.chunks blocks)

end Format

/-! ### Texts -/

namespace Block

/-- The text of a block. -/
def render (b : Block) (format : Format) : String := String.join (b.chunks format)

end Block

namespace Format

theorem join_intercalate (sep : List String) (css : List (List String)) :
    String.join (sep.intercalate css) = (String.join sep).intercalate (css.map String.join) := by
  induction css with
  | nil => rfl
  | cons cs css ih =>
    cases css with
    | nil => simp
    | cons ds css => simp_all [String.join_append, String.append_assoc]

/-- **The text of some blocks is their texts, in pretty text with an empty line in between.** -/
theorem render_eq_intercalate (format : Format) (blocks : List Block) :
    format.render blocks =
      (String.join format.separator).intercalate (blocks.map (·.render format)) := by
  rw [render, chunks, join_intercalate, List.map_map]
  rfl

/-- The text between two blocks. -/
def gap : Format → String
  | compact => ""
  | pretty => "\n"

theorem join_separator (format : Format) : String.join format.separator = format.gap := by
  cases format <;> simp [separator, gap]

theorem render_append (format : Format) (bs cs : List Block) :
    format.render (bs ++ cs) = format.render bs ++
      (if bs.isEmpty || cs.isEmpty then "" else format.gap) ++ format.render cs := by
  simp only [render_eq_intercalate, join_separator, List.map_append]
  rcases bs with _ | ⟨b, bs⟩
  · simp
  · rcases cs with _ | ⟨c, cs⟩
    · simp
    · rw [String.intercalate_append_of_ne_nil (by simp) (by simp)]
      simp

theorem render_singleton (format : Format) (b : Block) : format.render [b] = b.render format := by
  rw [render_eq_intercalate, List.map_singleton, String.intercalate_singleton]

theorem render_cons (format : Format) (b : Block) (bs : List Block) :
    format.render (b :: bs) =
      b.render format ++ (if bs.isEmpty then "" else format.gap) ++ format.render bs := by
  have happ := render_append format [b] bs
  rwa [List.singleton_append, render_singleton, List.isEmpty_cons, Bool.false_or] at happ

end Format

end Cascade
