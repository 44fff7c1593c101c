import ShaderGraph.Text.Printable

/-! Text in quotes, as messages show it: every character that does not show on
its own is written as an escape. -/
namespace ShaderGraph.Text

private def hexadecimal (n : Nat) : String := String.ofList (Nat.toDigits 16 n)

private def quotedCharacter (c : Char) : String :=
  if c = '\x00' then "\\0"
  else if c = '\t' then "\\t"
  else if c = '\r' then "\\r"
  else if c = '\n' then "\\n"
  else if c = '"' then "\\\""
  else if c = '\\' then "\\\\"
  else if isPrintable c then c.toString
  else "\\u\x7b" ++ hexadecimal c.toNat ++ "\x7d"

def quoted (text : String) : String :=
  "\"" ++ String.join (text.toList.map quotedCharacter) ++ "\""

end ShaderGraph.Text
