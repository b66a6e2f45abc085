/-!
# Source positions

A `Span` is the region of source text a node of a program comes from: byte offsets,
and the line and column where the region starts. Programs handed over by a host
usually know only the line (`Span.atLine`).

`Span.merge` is the least region covering two others, placed at the earlier of the two
starting points.
-/

namespace ScriptEngine

/-- A region of source text. Offsets count bytes; the line and the column of the start
count from one. -/
structure Span where
  start : Nat
  stop : Nat
  line : Nat
  column : Nat
deriving DecidableEq, Repr, Inhabited

namespace Span

/-- The region that knows only its line. -/
def atLine (line : Nat) : Span := ⟨0, 0, line, 1⟩

/-- The span of something that comes from no source text. -/
def unknown : Span := ⟨0, 0, 0, 0⟩

/-- Whether the region starts no later than `b`, lines first and columns within a line. -/
def startsBy (a b : Span) : Bool :=
  decide (a.line < b.line) || (a.line == b.line && decide (a.column ≤ b.column))

/-- The smallest region covering both, with the earlier of the two positions. -/
def merge (a b : Span) : Span :=
  let first := if a.startsBy b then a else b
  ⟨min a.start b.start, max a.stop b.stop, first.line, first.column⟩

/-- Line and column, separated by a colon. -/
def text (a : Span) : String := toString a.line ++ ":" ++ toString a.column

end Span

end ScriptEngine
