/-! Hexadecimal digits, in either case. -/
namespace ShaderGraph.Text

def hexValue? (c : Char) : Option Nat :=
  if c.isDigit then some (c.toNat - '0'.toNat)
  else if 'a' ≤ c && c ≤ 'f' then some (c.toNat - 'a'.toNat + 10)
  else if 'A' ≤ c && c ≤ 'F' then some (c.toNat - 'A'.toNat + 10)
  else none

/-- The number that digits spell, the first one leading. -/
def ofHexDigits (digits : List Nat) : Nat := digits.foldl (fun n d => n * 16 + d) 0

end ShaderGraph.Text
