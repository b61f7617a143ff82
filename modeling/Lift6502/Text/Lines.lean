/-! Texts as lists of lines. -/

namespace Lift6502.Lines

def join (lines : List String) : String :=
  String.join (lines.map fun line => line ++ "\n")

/-- A carriage return before a line feed is part of the line ending. -/
def dropReturn (line : String) : String :=
  if line.endsWith "\r" then (line.dropEnd 1).toString else line

/-- The lines of a text. The last one need not have a line feed. -/
def split (text : String) : List String :=
  let pieces := text.splitOn "\n"
  pieces.dropLast.map dropReturn ++ (pieces.getLast?.toList.filter fun piece => piece ≠ "")

end Lift6502.Lines
