import ShaderGraph.Json.Basic
import ShaderGraph.Text.Hexadecimal

/-! JSON text as a tree, as far as the text could be read. Where the text ends
too early or stops being JSON, the tree has a break and nothing after it. So a
reader that walks the tree in order meets first what comes first in the text,
be it a break or a value of the wrong shape. -/
namespace ShaderGraph.Json

/-- Why a text is not JSON. -/
inductive Fault where
  | ended
  | malformed
deriving DecidableEq

/-- The fault that a reader meets at a broken place. Skipping is less careful than
reading; a reader that wants a name looks for a quote first, and refuses
everything else at sight. -/
structure Break where
  read : Fault
  skip : Fault
  name : Fault
deriving DecidableEq

/-- A number or string that is spelled correctly may still have no value: the
number is too large, the string has half a surrogate pair. `buried` marks an
array or object nested too deeply to be read; it can be skipped. -/
inductive Document where
  | null
  | bool (value : Bool)
  | number (value : Option Number)
  | string (value : Option String)
  | array (items : List Document) (cut : Option Break)
  | object (members : List (Option String × Document)) (cut : Option Break)
  | buried (document : Document)
  | broken (cut : Break)

namespace Fault

/-- The break that shows as this fault to every reader. -/
def plain (fault : Fault) : Break := ⟨fault, fault, fault⟩

end Fault

/-- The break at a place where a name would be refused at sight. -/
def Break.nameless (cut : Break) : Break := { cut with name := .malformed }

def isSpace (c : Char) : Bool := c == ' ' || c == '\n' || c == '\t' || c == '\r'

def skipSpace (text : List Char) : List Char := text.dropWhile isSpace

/-! ### Strings -/

def unit? (a b c d : Char) : Option Nat := ([a, b, c, d].mapM Text.hexValue?).map Text.ofHexDigits

def isHighHalf (n : Nat) : Bool := 0xD800 ≤ n && n < 0xDC00
def isLowHalf (n : Nat) : Bool := 0xDC00 ≤ n && n < 0xE000

def joinHalves (high low : Nat) : Char :=
  Char.ofNat ((high - 0xD800) * 0x400 + (low - 0xDC00) + 0x10000)

def simpleEscape? (c : Char) : Option Char :=
  if c = '"' || c = '\\' || c = '/' then some c
  else if c = 'b' then some '\x08'
  else if c = 'f' then some '\x0c'
  else if c = 'n' then some '\n'
  else if c = 'r' then some '\r'
  else if c = 't' then some '\t'
  else none

/-- What is wrong when the four digits of an escape do not follow. The text counts as
ended when fewer than four bytes of it are left. -/
def badUnit (rest : List Char) : Fault :=
  if (rest.take 4).foldl (fun n c => n + c.utf8Size) 0 < 4 then .ended else .malformed

/-- The break in a string. A half that stays alone is noticed before it, except by skipping. -/
def stringBreak (lone : Bool) (fault : Fault) : Break :=
  { Fault.plain (if lone then .malformed else fault) with skip := fault }

/-- Reads a string after its opening quote. `half` is an upper surrogate half that
the next escape should complete, and `lone` says that some half stays alone. -/
def stringRest (half : Option Nat) (lone : Bool) (done : List Char) :
    List Char → Except Break (Option String × List Char)
  | [] => .error (stringBreak lone .ended)
  | c :: rest =>
    let alone := lone || half.isSome
    if c = '"' then .ok (if alone then none else some (String.ofList done.reverse), rest)
    else if c = '\\' then
      match rest with
      | [] => .error (stringBreak lone .ended)
      | e :: rest =>
        if e = 'u' then
          match rest with
          | h₁ :: h₂ :: h₃ :: h₄ :: rest =>
            match unit? h₁ h₂ h₃ h₄ with
            | none => .error (Fault.plain .malformed)
            | some n =>
              if isHighHalf n then stringRest (some n) alone done rest
              else if isLowHalf n then
                match half with
                | some high => stringRest none lone (joinHalves high n :: done) rest
                | none => stringRest none true done rest
              else stringRest none alone (Char.ofNat n :: done) rest
          | short => .error (stringBreak lone (badUnit short))
        else match simpleEscape? e with
          | none => .error (Fault.plain .malformed)
          | some c => stringRest none alone (c :: done) rest
    else if c.toNat < 0x20 then .error (Fault.plain .malformed)
    else stringRest none alone (c :: done) rest

/-! ### Numbers -/

/-- A number that stops where a digit should stand. A reader sees the end of the
text there; when the number is skipped the end is just another wrong character. -/
def missingDigit : List Char → Break
  | [] => { Fault.plain .malformed with read := .ended }
  | _ :: _ => Fault.plain .malformed

def digitsValue (digits : List Char) : Nat :=
  digits.foldl (fun n c => n * 10 + (c.toNat - '0'.toNat)) 0

/-- Splits off digits, of which there must be one. -/
def spanDigits (text : List Char) : Except Break (List Char × List Char) :=
  match text.span Char.isDigit with
  | ([], rest) => .error (missingDigit rest)
  | split => .ok split

/-- The digits before the point: a zero alone, or any digits that do not start with one. -/
def wholeDigits : List Char → Except Break (List Char × List Char)
  | '0' :: rest =>
    if rest.head?.any Char.isDigit then .error (Fault.plain .malformed) else .ok (['0'], rest)
  | text => spanDigits text

def fractionDigits : List Char → Except Break (Option (List Char) × List Char)
  | '.' :: rest => do
    let (digits, rest) ← spanDigits rest
    return (some digits, rest)
  | text => .ok (none, text)

def exponentDigits : List Char → Except Break (Option Int × List Char)
  | c :: rest =>
    if c = 'e' || c = 'E' then do
      let (negative, rest) := match rest with
        | '-' :: rest => (true, rest)
        | '+' :: rest => (false, rest)
        | rest => (false, rest)
      let (digits, rest) ← spanDigits rest
      let n : Int := digitsValue digits
      return (some (if negative then -n else n), rest)
    else .ok (none, c :: rest)
  | [] => .ok (none, [])

/-- An integer in the range of 64 bits, signed or not, is kept exactly; negative zero is no integer. -/
def integer? (negative : Bool) (n : Nat) : Option Number :=
  if !negative && n < twoTo 64 then some (.int n)
  else if negative && n != 0 && n ≤ twoTo 63 then some (.int (-n))
  else (Binary64.ofDecimal? negative n 0).map .float

/-- Reads a number after its sign. -/
def numberRest (negative : Bool) (text : List Char) :
    Except Break (Option Number × List Char) := do
  let (whole, rest) ← wholeDigits text
  let (fraction, rest) ← fractionDigits rest
  let (exponent, rest) ← exponentDigits rest
  if fraction.isNone && exponent.isNone then return (integer? negative (digitsValue whole), rest)
  else
    let places := fraction.getD []
    let value := Binary64.ofDecimal? negative (digitsValue (whole ++ places))
      (exponent.getD 0 - places.length)
    return (value.map .float, rest)

/-! ### Values -/

/-- Reads the rest of a word such as `null`. -/
def wordRest : List Char → List Char → Except Fault (List Char)
  | [], text => .ok text
  | _ :: _, [] => .error .ended
  | w :: word, c :: text => if w = c then wordRest word text else .error .malformed

/-- Arrays and objects may be nested this deep. -/
def depthLimit : Nat := 127

def word (document : Document) (rest : List Char) (text : List Char) :
    Document × List Char :=
  match wordRest rest text with
  | .ok text => (document, text)
  | .error fault => (.broken fault.plain.nameless, [])

def leaf {α : Type} (make : α → Document) :
    Except Break (α × List Char) → Document × List Char
  | .ok (value, rest) => (make value, rest)
  | .error cut => (.broken cut, [])

def nested (depth : Nat) (document : Document) : Document :=
  if depthLimit ≤ depth then .buried document else document

mutual

/-- Reads one value inside `depth` arrays and objects, and gives the text after it. -/
def document : Nat → Nat → List Char → Document × List Char
  | 0, _, _ => (.broken (Fault.plain .ended), [])
  | fuel + 1, depth, text =>
    match skipSpace text with
    | [] => (.broken (Fault.plain .ended), [])
    | c :: rest =>
      if c = '"' then leaf .string (stringRest none false [] rest)
      else if c = '[' then
        let (documents, cut, rest) := items fuel (depth + 1) true rest
        (nested depth (.array documents cut), rest)
      else if c = '\x7b' then
        let (documents, cut, rest) := members fuel (depth + 1) true rest
        (nested depth (.object documents cut), rest)
      else if c = '-' then leaf .number (numberRest true rest)
      else if c.isDigit then leaf .number (numberRest false (c :: rest))
      else if c = 'n' then word .null "ull".toList rest
      else if c = 't' then word (.bool true) "rue".toList rest
      else if c = 'f' then word (.bool false) "alse".toList rest
      else (.broken (Fault.plain .malformed), [])

/-- Reads the items of an array up to its end. A break right after a comma counts as an item. -/
def items : Nat → Nat → Bool → List Char → List Document × Option Break × List Char
  | 0, _, _, _ => ([], some (Fault.plain .ended), [])
  | fuel + 1, depth, first, text =>
    let item (text : List Char) :=
      let (head, rest) := document fuel depth text
      let (more, cut, rest) := items fuel depth false rest
      (head :: more, cut, rest)
    match skipSpace text with
    | [] => ([], some (Fault.plain .ended), [])
    | c :: rest =>
      if c = ']' then ([], none, rest)
      else if first then item (c :: rest)
      else if c = ',' then
        match skipSpace rest with
        | [] => ([.broken (Fault.plain .ended)], none, [])
        | c :: rest =>
          if c = ']' then ([.broken (Fault.plain .malformed)], none, []) else item (c :: rest)
      else ([], some (Fault.plain .malformed), [])

/-- Reads the members of an object up to its end. -/
def members : Nat → Nat → Bool → List Char →
    List (Option String × Document) × Option Break × List Char
  | 0, _, _, _ => ([], some (Fault.plain .ended), [])
  | fuel + 1, depth, first, text =>
    let member (text : List Char) :=
      match stringRest none false [] text with
      | .error cut => ([], some (if first then cut else cut.nameless), [])
      | .ok (key, rest) =>
        match skipSpace rest with
        | [] => ([(key, .broken (Fault.plain .ended))], none, [])
        | c :: rest =>
          if c = ':' then
            let (value, rest) := document fuel depth rest
            let (more, cut, rest) := members fuel depth false rest
            ((key, value) :: more, cut, rest)
          else ([(key, .broken (Fault.plain .malformed))], none, [])
    match skipSpace text with
    | [] => ([], some (Fault.plain .ended), [])
    | c :: rest =>
      if c = '\x7d' then ([], none, rest)
      else if first then
        if c = '"' then member rest else ([], some (Fault.plain .malformed), [])
      else if c = ',' then
        match skipSpace rest with
        | [] => ([], some (Fault.plain .ended).nameless, [])
        | c :: rest => if c = '"' then member rest else ([], some (Fault.plain .malformed), [])
      else ([], some (Fault.plain .malformed), [])

end

/-- The document at the front of a text, and the text after it. A value or
separator takes a character at least, which bounds the depth of the calls. -/
def parse (text : String) : Document × List Char :=
  let characters := text.toList
  document (2 * characters.length + 2) 0 characters

end ShaderGraph.Json
