/-! What is left of a text for terminals where control sequences are not
understood: they are taken out, and so are control characters that do not
move to another line or column. -/

namespace Lift6502.Plain

/-- How far a control sequence has come. -/
inductive Phase
  /-- Outside of any sequence. -/
  | ground
  | escape
  | escapeIntermediate
  /-- Up to the letter that ends a control sequence. -/
  | control
  | deviceEntry
  | deviceParameter
  | deviceIntermediate
  /-- In the text of a command to the terminal, which a bell ends. -/
  | command
  /-- In any other text that is not for display. -/
  | string
  deriving DecidableEq, Repr

def within (low high : Nat) (char : Char) : Bool :=
  low ≤ char.toNat && char.toNat ≤ high

/-- Control characters that lay out text. -/
def isLayout (char : Char) : Bool :=
  char == '\t' || char == '\n' || char == '\x0c' || char == '\r'

/-- Whether the encoding of a character holds the byte 9C, which ends a text
that is not for display. -/
def holdsTerminator (char : Char) : Bool :=
  (String.utf8EncodeChar char).contains 0x9C

namespace Phase

/-- The phase after a character that is not displayed. -/
def after (phase : Phase) (char : Char) : Phase :=
  if char == '\x18' || char == '\x1a' then .ground
  else if char == '\x1b' then .escape
  else match phase with
  | .ground => .ground
  | .escape =>
      if within 0x20 0x2F char then .escapeIntermediate
      else if char == '[' then .control
      else if char == ']' then .command
      else if char == 'P' then .deviceEntry
      else if char == 'X' || char == '^' || char == '_' then .string
      else if within 0x30 0x7E char then .ground
      else .escape
  | .escapeIntermediate => if within 0x30 0x7E char then .ground else .escapeIntermediate
  | .control => if within 0x40 0x7E char then .ground else .control
  | .deviceEntry =>
      if within 0x20 0x2F char then .deviceIntermediate
      else if within 0x30 0x3F char then .deviceParameter
      else if within 0x40 0x7E char then .string
      else .deviceEntry
  | .deviceParameter =>
      if within 0x20 0x2F char then .deviceIntermediate
      else if within 0x3C 0x7E char then .string
      else .deviceParameter
  | .deviceIntermediate => if within 0x30 0x7E char then .string else .deviceIntermediate
  | .command => if char == '\x07' then .ground else .command
  | .string => if holdsTerminator char then .ground else .string

/-- Whether a character is displayed. Layout is displayed even within a
control sequence. -/
def displays (phase : Phase) (char : Char) : Bool :=
  match phase with
  | .ground => isLayout char || (0x20 ≤ char.toNat && char != '\x7f')
  | .escape | .escapeIntermediate | .control => isLayout char
  | .deviceEntry | .deviceParameter | .deviceIntermediate | .command | .string => false

end Phase

/-- The displayed characters. Once text is displayed it goes on being so up to
a character that cannot be; a sequence that layout has interrupted is resumed
there, unless a character outside of ASCII has ended it. -/
def displayed (phase : Phase) (displaying : Bool) : List Char → List Char
  | [] => []
  | char :: rest =>
      if (if displaying then Phase.ground else phase).displays char then
        char :: displayed (if char.toNat < 0x80 then phase else .ground) true rest
      else
        displayed (phase.after char) false rest

def ofText (text : String) : String :=
  String.ofList (displayed .ground false text.toList)

/-- Sets a text off by a change of style, as terminals understand it. -/
def emphasis (text : String) : String :=
  "\x1b[1m" ++ text ++ "\x1b[0m"

end Lift6502.Plain
