/-! Text that is safe to show on a terminal. Escape sequences and controls are
taken out of it; the controls that lay out a text stay. -/
namespace ShaderGraph.Text

/-- Where the reading of a text stands: outside of escape sequences, after the
escape character, in a short sequence, in a control sequence, in a title, in the
head of a device string (three places), or in the body of a string. -/
inductive Escape where
  | outside
  | begun
  | short
  | sequence
  | title
  | device
  | deviceNumbers
  | deviceMarks
  | body
deriving DecidableEq

namespace Escape

/-- Where a printable character leads. -/
def next (n : Nat) : Escape → Escape
  | outside => outside
  | begun =>
    if n < 0x30 then short
    else if n = '['.toNat then sequence
    else if n = ']'.toNat then title
    else if n = 'P'.toNat then device
    else if ['X', '^', '_'].any (·.toNat == n) then body
    else outside
  | short => if n < 0x30 then short else outside
  | sequence => if n < 0x40 then sequence else outside
  | title => title
  | device => if n < 0x30 then deviceMarks else if n < 0x40 then deviceNumbers else body
  | deviceNumbers => if n < 0x30 then deviceMarks else if n < 0x3C then deviceNumbers else body
  | deviceMarks => if n < 0x30 then deviceMarks else body
  | body => body

/-- Whether a text is laid out in the middle of the sequence. In titles and strings it is not. -/
def laysOut : Escape → Bool
  | outside => true
  | begun => true
  | short => true
  | sequence => true
  | _ => false

/-- A title ends with a bell. The body of a string ends with the byte `9C`, also
where that byte is a part of a longer character. -/
def endsWith (c : Char) : Escape → Bool
  | title => c == '\x07'
  | body => (String.utf8EncodeChar c).contains 0x9C
  | _ => false

/-- Whether a character stays, and where it leads; `kept` says whether the
character before it stayed. A sequence that layout interrupts is forgotten while
characters stay, and goes on at the next control; a character beyond ASCII
drops it for good. -/
def step (kept : Bool) (c : Char) (state : Escape) : Bool × Escape :=
  let n := c.toNat
  let isLayout := n == 9 || n == 10 || n == 12 || n == 13
  let isPrintable := 0x20 ≤ n && n < 0x7F
  if n = 0x1B then (false, begun)
  else if n = 0x18 || n = 0x1A then (false, outside)
  else if state.endsWith c then (false, outside)
  else if isLayout && state.laysOut then (true, state)
  else if kept || state = outside then
    if isPrintable then (true, state) else if 0x80 ≤ n then (true, outside) else (false, state)
  else (false, if isPrintable then state.next n else state)

end Escape

/-- The characters that stay. -/
def keptFrom (kept : Bool) (state : Escape) : List Char → List Char
  | [] => []
  | c :: text =>
    match state.step kept c with
    | (true, state) => c :: keptFrom true state text
    | (false, state) => keptFrom false state text

/-- Takes escape sequences and controls out of a text. -/
def withoutControls (text : String) : String := String.ofList (keptFrom false .outside text.toList)

end ShaderGraph.Text
