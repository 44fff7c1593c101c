import ShaderGraph.Glsl.Lexer
import ShaderGraph.Glsl.Signature

/-! Function headers are found at the top level of a source text. Everything
else there (globals, structures, precision statements, directives) is skipped by
matching brackets, and so are function bodies: no statement or expression is
parsed.

All functions read a list of tokens together with the `Ending` behind it, and
give back the tokens that they leave. A look past the last token reports the
lexer's error if there is one. -/
namespace ShaderGraph.Glsl

/-- Words that may stand before a type. -/
def qualifiers : List String :=
  ["const", "uniform", "varying", "attribute", "in", "out", "inout", "highp", "mediump", "lowp",
    "invariant", "precise", "flat", "smooth", "noperspective", "centroid", "buffer", "shared"]

def Token.isQualifier (t : Token) : Bool := t.isIdentifier && qualifiers.contains t.text

def Token.unexpected (t : Token) (expected : String) : SyntaxError :=
  ⟨t.location, .unexpectedToken t.text expected⟩

def Token.unclosed (t : Token) : SyntaxError := ⟨t.location, .unclosed t.text⟩

namespace Ending

/-- The report for tokens that end where more may follow but need not. -/
def check (ending : Ending) : Except SyntaxError Unit :=
  match ending.error with
  | some e => .error e
  | none => .ok ()

/-- The report for tokens that end where something must follow. -/
def missing (ending : Ending) (expected : String) : SyntaxError :=
  ending.error.getD ⟨ending.stop, .unexpectedEnd expected⟩

/-- The report for tokens that end inside a bracket. -/
def unclosed (ending : Ending) (bracket : Token) : SyntaxError :=
  ending.error.getD bracket.unclosed

end Ending

def quoted (text : String) : String := s!"`{text}`"

/-- What one token does to the open brackets, the innermost of which is `top`. -/
def bracketStep (top : Token) (outer : List Token) (t : Token) : Except SyntaxError (List Token) :=
  if t.opens then .ok (t :: top :: outer)
  else if t.closes then
    if t.text = top.closer then .ok outer else .error (t.unexpected (quoted top.closer))
  else .ok (top :: outer)

/-- Reads up to and including the bracket that closes the outermost of the open ones. -/
def skipBalanced (ending : Ending) : List Token → List Token → Except SyntaxError (List Token)
  | [], tokens => .ok tokens
  | top :: _, [] => .error (ending.unclosed top)
  | top :: outer, t :: tokens => do skipBalanced ending (← bracketStep top outer t) tokens

/-- Reads up to the first token outside brackets that `stops` picks out, and
leaves that token. Outside brackets, `bars` must not hold. -/
def skipUntil (ending : Ending) (stops bars : Token → Bool) (expected : String) :
    List Token → List Token → Except SyntaxError (List Token)
  | [], [] => .error (ending.missing expected)
  | top :: _, [] => .error (ending.unclosed top)
  | [], t :: tokens =>
    if stops t then .ok (t :: tokens)
    else if bars t then .error (t.unexpected expected)
    else skipUntil ending stops bars expected (if t.opens then [t] else []) tokens
  | top :: outer, t :: tokens => do
    skipUntil ending stops bars expected (← bracketStep top outer t) tokens

/-- Reads up to and including the semicolon that ends a statement. -/
def skipStatement (ending : Ending) (tokens : List Token) : Except SyntaxError (List Token) :=
  (skipUntil ending (·.isPunctuation ";") Token.closes "`;`" [] tokens).map List.tail

/-- Reads up to the comma or parenthesis that ends the default value of a parameter. -/
def skipDefault (ending : Ending) (tokens : List Token) : Except SyntaxError (List Token) :=
  skipUntil ending (fun t => t.isPunctuation "," || t.isPunctuation ")")
    (fun t => t.isPunctuation "]" || t.isPunctuation "\x7d" || t.isPunctuation ";") "`)`" [] tokens

def sizeOperators : List String := ["+", "-", "*", "/"]

/-- Reads array suffixes and appends their text to a type. `inside` says whether
a bracket is open. -/
def arraySuffix (ending : Ending) (inside : Bool) (type : String) :
    List Token → Except SyntaxError (String × List Token)
  | [] => if inside then .error (ending.missing "`]`") else do ending.check; return (type, [])
  | t :: tokens =>
    if inside then
      if t.isPunctuation "]" then arraySuffix ending false (type ++ "]") tokens
      else if t.kind = .punctuation && !sizeOperators.contains t.text then
        .error (t.unexpected "`]`")
      else arraySuffix ending true (type ++ t.text) tokens
    else if t.isPunctuation "[" then arraySuffix ending true (type ++ "[") tokens
    else .ok (type, t :: tokens)

/-- Reads past qualifiers and layouts to the token after them. The brackets are
those of a layout that is being skipped. -/
def skipQualifiers (ending : Ending) (expected : String) :
    List Token → List Token → Except SyntaxError (Token × List Token)
  | [], [] => .error (ending.missing expected)
  | top :: _, [] => .error (ending.unclosed top)
  | [], t :: tokens =>
    if t.isQualifier then skipQualifiers ending expected [] tokens
    else if t.isWord "layout" then
      match tokens with
      | [] => .error (ending.missing (quoted "("))
      | bracket :: tokens =>
        if bracket.isPunctuation "(" then skipQualifiers ending expected [bracket] tokens
        else .error (bracket.unexpected (quoted "("))
    else .ok (t, tokens)
  | top :: outer, t :: tokens => do
    skipQualifiers ending expected (← bracketStep top outer t) tokens

/-- Reads the word of a type, qualifiers before it. -/
def typeWord (ending : Ending) (expected : String) (tokens : List Token) :
    Except SyntaxError (Token × List Token) := do
  let (t, tokens) ← skipQualifiers ending expected [] tokens
  if t.isIdentifier then return (t, tokens) else throw (t.unexpected expected)

/-- Reads one parameter: its type, its name, array suffixes after either, and a default value. -/
def parameter (ending : Ending) (tokens : List Token) :
    Except SyntaxError (Socket × List Token) := do
  let (word, tokens) ← typeWord ending "a parameter type" tokens
  let (type, tokens) ← arraySuffix ending false word.text tokens
  match tokens with
  | [] => throw (ending.missing "a parameter name")
  | name :: tokens =>
    if !name.isIdentifier then throw ⟨name.location, .unnamedParameter type⟩
    let (type, tokens) ← arraySuffix ending false type tokens
    let socket : Socket := ⟨.ofName type, name.text⟩
    match tokens with
    | [] => ending.check; return (socket, [])
    | t :: rest =>
      if t.isPunctuation "=" then return (socket, ← skipDefault ending rest)
      else return (socket, t :: rest)

/-- Reads at most `n` parameters and the parenthesis after the last one. -/
def parameterList (ending : Ending) : Nat → List Token →
    Except SyntaxError (List Socket × List Token)
  | 0, _ => .error (ending.missing "a parameter type")
  | n + 1, tokens => do
    let (socket, tokens) ← parameter ending tokens
    match tokens with
    | [] => throw (ending.missing "`,` or `)`")
    | t :: tokens =>
      if t.isPunctuation ")" then return ([socket], tokens)
      else if t.isPunctuation "," then
        let (sockets, tokens) ← parameterList ending n tokens
        return (socket :: sockets, tokens)
      else throw (t.unexpected "`,` or `)`")

/-- Reads what follows the opening parenthesis of a header, up to its closing
one. Nothing and the word `void` both mean that there are no parameters. -/
def parameters (ending : Ending) (tokens : List Token) :
    Except SyntaxError (List Socket × List Token) :=
  let several := parameterList ending (tokens.length + 1) tokens
  match tokens with
  | [] => several
  | t :: rest =>
    if t.isPunctuation ")" then .ok ([], rest)
    else match rest with
      | [] => several
      | next :: rest =>
        if t.isWord "void" && next.isPunctuation ")" then .ok ([], rest) else several

/-- Reads the semicolon or the body after a header; says whether there is a body. -/
def headerEnd (ending : Ending) : List Token → Except SyntaxError (Bool × List Token)
  | [] => .error (ending.missing "`;` or `\x7b`")
  | t :: tokens =>
    if t.isPunctuation ";" then .ok (false, tokens)
    else if t.isPunctuation "\x7b" then do return (true, ← skipBalanced ending [t] tokens)
    else .error (t.unexpected "`;` or `\x7b`")

/-- Reads what follows the type of a declaration: a block, a global or a function. -/
def declarator (ending : Ending) (word : Token) (tokens : List Token) :
    Except SyntaxError (Option Signature × List Token) := do
  let (type, tokens) ← arraySuffix ending false word.text tokens
  match tokens with
  | [] => throw (ending.missing "a name")
  | name :: tokens =>
    if !name.isIdentifier then throw (name.unexpected "a name")
    match tokens with
    | [] => throw (ending.missing "`;`")
    | t :: rest =>
      if t.isPunctuation "(" then
        let (sockets, tokens) ← parameters ending rest
        let (hasBody, tokens) ← headerEnd ending tokens
        return (some ⟨type, name.text, sockets, hasBody⟩, tokens)
      else return (none, ← skipStatement ending (t :: rest))

/-- The name of a structure belongs to its type. -/
def structureName (word : Token) : List Token → List Token
  | [] => []
  | t :: tokens => if word.isWord "struct" && t.isIdentifier then tokens else t :: tokens

/-- Reads one top-level item that starts with `first`; only a function header leaves something. -/
def item (ending : Ending) (first : Token) (tokens : List Token) :
    Except SyntaxError (Option Signature × List Token) :=
  if first.kind = .directive || first.isPunctuation ";" then .ok (none, tokens)
  else if !first.isIdentifier then .error (first.unexpected "a declaration")
  else if first.isWord "precision" then do return (none, ← skipStatement ending tokens)
  else do
    let (word, tokens) ← typeWord ending "a type" (first :: tokens)
    match structureName word tokens with
    | [] => throw (ending.missing "a name")
    | t :: rest =>
      if t.isPunctuation "\x7b" then
        let tokens ← skipBalanced ending [t] rest
        return (none, ← skipStatement ending tokens)
      else declarator ending word (t :: rest)

/-- The results of at most `n` items: the definitions of the supported functions
among them and, as the last result, the error that ends the reading. -/
def extractItems (ending : Ending) : Nat → List Token → List (Except SyntaxError Definition)
  | _, [] => (ending.error.map .error).toList
  | 0, _ :: _ => []
  | n + 1, first :: tokens =>
    match item ending first tokens with
    | .error error => [.error error]
    | .ok (none, tokens) => extractItems ending n tokens
    | .ok (some s, tokens) =>
      if s.isSupported then .ok s.toDefinition :: extractItems ending n tokens
      else extractItems ending n tokens

/-- The definitions of all supported functions of a source text, in order, up to
the first error. An item has a token at least, so the tokens bound the items. -/
def extract (source : String) : List (Except SyntaxError Definition) :=
  let lexed := lex source
  extractItems lexed.ending lexed.tokens.length lexed.tokens

/-- The definitions of all supported functions of a source text, if it has no error. -/
def definitions (source : String) : Except SyntaxError (List Definition) :=
  (extract source).mapM id

end ShaderGraph.Glsl
