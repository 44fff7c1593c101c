import ShaderGraph.Decimal
import ShaderGraph.Json.Basic

/-! JSON text, compact or indented. -/
namespace ShaderGraph.Json

def hexDigit (n : Nat) : Char := Nat.digitChar (n % 16)

def escaped (c : Char) : List Char :=
  if c = '"' then ['\\', '"']
  else if c = '\\' then ['\\', '\\']
  else if c = '\x08' then ['\\', 'b']
  else if c = '\x0c' then ['\\', 'f']
  else if c = '\n' then ['\\', 'n']
  else if c = '\r' then ['\\', 'r']
  else if c = '\t' then ['\\', 't']
  else if c.toNat < 0x20 then
    ['\\', 'u', '0', '0', hexDigit (c.toNat / 16), hexDigit c.toNat]
  else [c]

def stringText (text : String) : String :=
  "\"" ++ String.ofList (text.toList.flatMap escaped) ++ "\""

/-- Floating-point numbers are positional from `1e-5` up to below `1e16`, with one
place at least. Beyond, the exponent has its sign and no padding. Of two nearest
decimals the even one is taken, zero keeps its sign, and what is not finite is `null`. -/
def floatText (x : Binary64) : String :=
  let sign := if x.isNegative then "-" else ""
  if !x.isFinite then "null"
  else if x.magnitude = 0 then sign ++ "0.0"
  else
    let d := Decimal.shortest .toEven x
    let e := d.leadingExponent
    if -5 ≤ e && e < 16 then
      let (whole, fraction) := d.positional
      sign ++ whole ++ "." ++ (if fraction = "" then "0" else fraction)
    else
      let (lead, more) := d.scientific
      sign ++ lead ++ (if more = "" then "" else "." ++ more) ++ "e" ++
        (if e < 0 then "-" else "+") ++ toString e.natAbs

def Number.text : Number → String
  | int n => toString n
  | float x => floatText x

mutual

/-- The text without any space. -/
def compact : Json → String
  | null => "null"
  | bool b => if b then "true" else "false"
  | number n => n.text
  | string s => stringText s
  | array items => "[" ++ ",".intercalate (compactItems items) ++ "]"
  | object members => "\x7b" ++ ",".intercalate (compactMembers members) ++ "\x7d"

def compactItems : List Json → List String
  | [] => []
  | item :: items => compact item :: compactItems items

def compactMembers : List (String × Json) → List String
  | [] => []
  | (key, value) :: members => (stringText key ++ ":" ++ compact value) :: compactMembers members

end

def indentation (level : Nat) : String := String.ofList (List.replicate (2 * level) ' ')

/-- Brackets around lines one level in, or right beside each other if there are none. -/
def block (opening closing : String) (level : Nat) (lines : List String) : String :=
  if lines.isEmpty then opening ++ closing
  else
    let inner := lines.map (indentation (level + 1) ++ ·)
    opening ++ "\n" ++ ",\n".intercalate inner ++ "\n" ++ indentation level ++ closing

mutual

/-- The text with one item or member a line, indented by two spaces a level. -/
def prettyAt (level : Nat) : Json → String
  | null => "null"
  | bool b => if b then "true" else "false"
  | number n => n.text
  | string s => stringText s
  | array items => block "[" "]" level (prettyItems (level + 1) items)
  | object members => block "\x7b" "\x7d" level (prettyMembers (level + 1) members)

def prettyItems (level : Nat) : List Json → List String
  | [] => []
  | item :: items => prettyAt level item :: prettyItems level items

def prettyMembers (level : Nat) : List (String × Json) → List String
  | [] => []
  | (key, value) :: members =>
    (stringText key ++ ": " ++ prettyAt level value) :: prettyMembers level members

end

def pretty (json : Json) : String := json.prettyAt 0

end ShaderGraph.Json
