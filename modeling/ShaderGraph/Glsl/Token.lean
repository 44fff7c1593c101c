/-! Tokens of shader source, where they stand, and what can be wrong with a
source text. Only the vocabulary is fixed here; reading text is the business of
the lexer, and reading tokens that of the extraction of signatures. -/
namespace ShaderGraph.Glsl

/-- A place in a text. Lines and columns count from one, columns in characters. -/
structure Location where
  line : Nat
  column : Nat
deriving DecidableEq

namespace Location

/-- The place before the first character. -/
def start : Location := ⟨1, 1⟩

/-- The place after `c`, when `c` stands at `l`. -/
def advance (l : Location) (c : Char) : Location :=
  if c = '\n' then ⟨l.line + 1, 1⟩ else ⟨l.line, l.column + 1⟩

/-- The place after a text that starts at `l`. -/
def after (l : Location) (text : List Char) : Location := text.foldl advance l

end Location

inductive TokenKind where
  | identifier
  | number
  | punctuation
  | directive
deriving DecidableEq

structure Token where
  kind : TokenKind
  text : String
  location : Location
deriving DecidableEq

namespace Token

def isPunctuation (t : Token) (text : String) : Bool := t.kind == .punctuation && t.text == text
def isWord (t : Token) (text : String) : Bool := t.kind == .identifier && t.text == text
def isIdentifier (t : Token) : Bool := t.kind == .identifier

/-- Whether the token opens a bracket. -/
def opens (t : Token) : Bool :=
  t.isPunctuation "\x7b" || t.isPunctuation "(" || t.isPunctuation "["

/-- Whether the token closes a bracket. -/
def closes (t : Token) : Bool :=
  t.isPunctuation "\x7d" || t.isPunctuation ")" || t.isPunctuation "]"

/-- The text that closes the bracket opened by the token. -/
def closer (t : Token) : String :=
  if t.text = "\x7b" then "\x7d" else if t.text = "(" then ")" else "]"

/-- The place right after the token. -/
def finish (t : Token) : Location := t.location.after t.text.toList

end Token

/-- What is wrong at a place of a source text. -/
inductive SyntaxFault where
  | unterminatedComment
  | misplacedDirective
  | unexpectedCharacter (character : Char)
  | unexpectedToken (text expected : String)
  | unexpectedEnd (expected : String)
  | unclosed (bracket : String)
  | unnamedParameter (dataType : String)
deriving DecidableEq

namespace SyntaxFault

def message : SyntaxFault → String
  | unterminatedComment => "unterminated block comment"
  | misplacedDirective => "`#` must start a preprocessor line"
  | unexpectedCharacter c => s!"unexpected character `{c}`"
  | unexpectedToken text expected => s!"unexpected `{text}`, expected {expected}"
  | unexpectedEnd expected => s!"unexpected end of input, expected {expected}"
  | unclosed bracket => s!"unclosed `{bracket}`"
  | unnamedParameter dataType => s!"parameter of type `{dataType}` has no name"

end SyntaxFault

structure SyntaxError where
  location : Location
  fault : SyntaxFault
deriving DecidableEq

namespace SyntaxError

def message (e : SyntaxError) : String :=
  s!"invalid syntax at {e.location.line}:{e.location.column}: {e.fault.message}"

end SyntaxError

end ShaderGraph.Glsl
