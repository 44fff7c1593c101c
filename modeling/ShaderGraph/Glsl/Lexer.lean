import ShaderGraph.Text.Blank
import ShaderGraph.Glsl.Token

/-! The lexer. White space and comments are dropped, a preprocessor line is one
token, and the first character that starts no token ends the reading. Nothing
here checks that a number or a directive makes sense. -/
namespace ShaderGraph.Glsl

def threeCharOperators : List (List Char) := ["<<=", ">>="].map String.toList

def twoCharOperators : List (List Char) :=
  ["++", "--", "<=", ">=", "==", "!=", "&&", "||", "^^", "+=", "-=", "*=", "/=", "%=", "&=",
    "|=", "^=", "<<", ">>"].map String.toList

def oneCharPunctuation : List Char := "+-*/%=<>!&|^~?:;,.()[]\x7b\x7d".toList

def isWordStart (c : Char) : Bool := c.isAlpha || c == '_'
def isWordChar (c : Char) : Bool := c.isAlphanum || c == '_'

/-- Where the skipping of trivia stands: between things, inside a line comment, at
the star that opens a block comment, inside the comment, or at the slash that
closes it. A block comment keeps the place where it opens. -/
inductive Trivia where
  | between
  | line
  | opening (opened : Location)
  | block (opened : Location)
  | closing

namespace Trivia

/-- Where the skipping stands after `c`, when `c` stands at `l` and `next` follows
it; nothing when `c` is no trivia. -/
def step (l : Location) (c : Char) (next : Option Char) : Trivia → Option Trivia
  | between =>
    if Text.isBlank c then some between
    else if c = '/' && next == some '/' then some line
    else if c = '/' && next == some '*' then some (opening l)
    else none
  | line => some (if c = '\n' then between else line)
  | opening opened => some (block opened)
  | block opened => some (if c = '*' && next == some '/' then closing else block opened)
  | closing => some between

/-- Where the comment opens that is not closed yet. -/
def unclosed? : Trivia → Option Location
  | opening opened => some opened
  | block opened => some opened
  | _ => none

end Trivia

/-- Drops white space and comments. The failure names the place where an
unterminated comment opens, and the end of the text. -/
def skipTrivia : Trivia → Location → List Char → Except (Location × Location) (Location × List Char)
  | mode, l, [] =>
    match mode.unclosed? with
    | some opened => .error (opened, l)
    | none => .ok (l, [])
  | mode, l, c :: rest =>
    match mode.step l c rest.head? with
    | some mode => skipTrivia mode (l.advance c) rest
    | none => .ok (l, c :: rest)

/-- Splits off a number: letters, digits and points, and a sign directly after
`e` or `E` unless the number is hexadecimal. -/
def spanNumber (hex : Bool) (previous : Char) : List Char → List Char × List Char
  | [] => ([], [])
  | c :: rest =>
    if c.isAlphanum || c == '.' ||
        (!hex && (c == '+' || c == '-') && (previous == 'e' || previous == 'E')) then
      let (text, rest) := spanNumber hex c rest
      (c :: text, rest)
    else ([], c :: rest)

/-- Splits off one logical line. A newline belongs to it when a backslash stands
before it, carriage returns between the two aside; `continued` says whether the
text so far ends that way. -/
def spanLogicalLine (continued : Bool) : List Char → List Char × List Char
  | [] => ([], [])
  | c :: rest =>
    if c = '\n' && !continued then ([], c :: rest)
    else
      let (text, rest) := spanLogicalLine (c == '\\' || (c == '\r' && continued)) rest
      (c :: text, rest)

/-- The length of the operator or bracket at the front of a text; the longest one wins. -/
def punctuationLength? (text : List Char) : Option Nat :=
  if threeCharOperators.any (·.isPrefixOf text) then some 3
  else if twoCharOperators.any (·.isPrefixOf text) then some 2
  else match text with
    | [] => none
    | c :: _ => if oneCharPunctuation.contains c then some 1 else none

def startsNumber : List Char → Bool
  | [] => false
  | c :: rest => c.isDigit || (c == '.' && rest.head?.any Char.isDigit)

def isHexadecimal : List Char → Bool
  | '0' :: 'x' :: _ => true
  | '0' :: 'X' :: _ => true
  | _ => false

/-- The token at the front of a text that starts with `c`, no trivia before it,
and the text after it. `lineStart` says whether a directive may stand here. -/
def lexeme (lineStart : Bool) (c : Char) (rest : List Char) :
    Except SyntaxFault (TokenKind × List Char × List Char) :=
  let text := c :: rest
  if c = '#' then
    if lineStart then .ok (.directive, spanLogicalLine false text)
    else .error .misplacedDirective
  else if isWordStart c then .ok (.identifier, text.span isWordChar)
  else if startsNumber text then .ok (.number, spanNumber (isHexadecimal text) '\x00' text)
  else match punctuationLength? text with
    | some n => .ok (.punctuation, text.splitAt n)
    | none => .error (.unexpectedCharacter c)

/-- The lexer between two tokens. `started` says whether a token has come out. -/
structure Lexer where
  rest : List Char
  location : Location := .start
  started : Bool := false

/-- What the lexer makes of the front of its text. A failure also says where it stopped. -/
inductive LexStep where
  | token (token : Token) (next : Lexer)
  | finished (stop : Location)
  | failed (error : SyntaxError) (stop : Location)

/-- Reads one token. A directive must be the first token or have a newline
between it and the token before. -/
def Lexer.step (lexer : Lexer) : LexStep :=
  match skipTrivia .between lexer.location lexer.rest with
  | .error (opened, stop) => .failed ⟨opened, .unterminatedComment⟩ stop
  | .ok (l, []) => .finished l
  | .ok (l, c :: rest) =>
    match lexeme (!lexer.started || lexer.location.line < l.line) c rest with
    | .error fault => .failed ⟨l, fault⟩ l
    | .ok (kind, text, rest) =>
      .token ⟨kind, String.ofList text, l⟩ ⟨rest, l.after text, true⟩

/-- How the reading of a text came to its end: at what place, and with what error if any. -/
structure Ending where
  stop : Location
  error : Option SyntaxError
deriving DecidableEq

/-- The tokens of a text, up to its end or to the first error. -/
structure Lexed where
  tokens : List Token
  ending : Ending
deriving DecidableEq

/-- Reads at most `n` tokens. -/
def Lexer.run : Nat → Lexer → Lexed
  | 0, lexer => ⟨[], lexer.location, none⟩
  | n + 1, lexer =>
    match lexer.step with
    | .finished stop => ⟨[], stop, none⟩
    | .failed error stop => ⟨[], stop, some error⟩
    | .token t next =>
      let later := run n next
      ⟨t :: later.tokens, later.ending⟩

/-- All tokens of a text. Every token has a character, so a text has no more
tokens than characters, and one step more finds its end. -/
def lex (source : String) : Lexed := Lexer.run (source.toList.length + 1) { rest := source.toList }

end ShaderGraph.Glsl
