import Cascade.Layout
import Cascade.Sink

/-! # Compilation

A sheet is compiled into an output: all of its rules are resolved to blocks before the first of them
is written, so an error in a rule leaves the output as it was. The text of a sheet is the text of
its blocks (`compile_eq_map_render`). -/

namespace Cascade

/-- What a compilation has reported, the output after it, and whether it succeeded. -/
structure Compilation (σ : Type) where
  events : List Event
  sink : σ
  result : Except Error Unit

/-- The text in the sink after a compilation, unless it failed. -/
def Compilation.text (c : Compilation Sink) : Except Error String :=
  c.result.map fun _ => c.sink.text

namespace Block

/-- The number of declarations of some blocks. -/
def countDeclarations (blocks : List Block) : Nat :=
  (blocks.flatMap Block.declarations).length

end Block

namespace Sheet

/-- The compilation of a sheet into an output. -/
def writeTo {σ : Type} [Output σ] (sheet : Sheet) (options : Options) (sink : σ) : Compilation σ :=
  let start := Event.compiling sheet.size options.format
  let resolved := sheet.blocks options
  match resolved.outcome with
  | .error e => ⟨start :: resolved.events, sink, .error e⟩
  | .ok blocks =>
    match Output.writeAll sink (options.format.chunks blocks) with
    | (sink, true) =>
      let finish := Event.compiled blocks.length (Block.countDeclarations blocks)
      ⟨start :: resolved.events ++ [finish], sink, .ok ()⟩
    | (sink, false) => ⟨start :: resolved.events, sink, .error .refused⟩

/-- The text of a sheet. -/
def compile (sheet : Sheet) (options : Options) : Except Error String :=
  (sheet.writeTo options {}).text

/-- The text of a sheet under the default options. -/
def css (sheet : Sheet) : Except Error String := sheet.compile .compact

/-! ### The text of a sheet -/

variable {sheet : Sheet} {options : Options} {blocks : List Block}

section Output

variable {σ : Type} [Output σ] {sink : σ}

theorem writeTo_of_error {e : Error} (h : (sheet.blocks options).outcome = .error e) :
    (sheet.writeTo options sink).result = .error e ∧ (sheet.writeTo options sink).sink = sink := by
  unfold writeTo
  simp only [h, and_self]

theorem writeTo_of_ok (h : (sheet.blocks options).outcome = .ok blocks) :
    (sheet.writeTo options sink).sink =
        (Output.writeAll sink (options.format.chunks blocks)).1 ∧
      (sheet.writeTo options sink).result =
        if (Output.writeAll sink (options.format.chunks blocks)).2 then .ok ()
        else .error .refused := by
  unfold writeTo
  simp only [h]
  rcases Output.writeAll sink (options.format.chunks blocks) with ⟨after, _ | _⟩ <;> simp

end Output

/-- A sink is given the text as a whole. -/
theorem writeTo_sink_of_ok {sink : Sink} (h : (sheet.blocks options).outcome = .ok blocks) :
    (sheet.writeTo options sink).sink = (sink.write (options.format.render blocks)).1 ∧
      (sheet.writeTo options sink).result =
        if (sink.write (options.format.render blocks)).2 then .ok () else .error .refused := by
  rw [Format.render, ← Sink.writeAll_eq_write]
  exact writeTo_of_ok h

/-- **The text of a sheet is the text of its blocks.** -/
theorem compile_eq_map_render :
    sheet.compile options = (sheet.blocks options).outcome.map options.format.render := by
  unfold compile Compilation.text
  cases h : (sheet.blocks options).outcome with
  | error e =>
    rw [(writeTo_of_error h).1]
    rfl
  | ok blocks =>
    rw [(writeTo_sink_of_ok h).1, (writeTo_sink_of_ok h).2,
      Sink.write_of_unlimited Sink.limit?_empty, if_pos rfl]
    simp [Except.map]

end Sheet

end Cascade
