import ShaderGraph.Glsl.Extraction
import ShaderGraph.Proofs.Computation
import ShaderGraph.Proofs.Lexing

/-!
Extraction on demand. Here no list of tokens is made first: the lexer is asked for a
token when one is needed, a token that was only looked at waits in a slot, and what
comes after it is read on a copy of the cursor, which is then either taken over or
dropped. So an error of the lexer stops the reading only if it is reached.

Every loop ends because what it goes on with is shorter. The lemmas on `size` say so;
that the loops find what `extract` finds is proved elsewhere.
-/

namespace ShaderGraph.Glsl

/-- The outcome of a computation, with the fact that it is the outcome. -/
def witnessed {ε α : Type} : (x : Except ε α) → Except ε { a // x = .ok a }
  | .ok a => .ok ⟨a, rfl⟩
  | .error e => .error e

theorem witnessed_bind_eq_ok {ε α β : Type} {x : Except ε α}
    {k : { a // x = .ok a } → Except ε β} {b : β} (h : (witnessed x >>= k) = .ok b) :
    ∃ a, ∃ ha : x = .ok a, k ⟨a, ha⟩ = .ok b := by
  cases x with
  | error e => cases h
  | ok a => exact ⟨a, rfl, h⟩

/-- The next token, if there is one. At the end of its text the lexer stays there. -/
def Lexer.pull (lexer : Lexer) : Except SyntaxError (Option Token × Lexer) :=
  match lexer.step with
  | .token t next => .ok (some t, next)
  | .finished stop => .ok (none, { lexer with rest := [], location := stop })
  | .failed error _ => .error error

/-- A lexer, and the token that was looked at last unless it has been taken. -/
structure Cursor where
  lexer : Lexer
  peeked : Option Token := none

namespace Cursor

/-- Takes a token. -/
def next (cursor : Cursor) : Except SyntaxError (Option Token × Cursor) :=
  match cursor.peeked with
  | some t => .ok (some t, { cursor with peeked := none })
  | none => do
    let (t, lexer) ← cursor.lexer.pull
    return (t, { lexer })

/-- Looks at the token that `next` would take. -/
def peek (cursor : Cursor) : Except SyntaxError (Option Token × Cursor) :=
  match cursor.peeked with
  | some t => .ok (some t, cursor)
  | none => do
    let (t, lexer) ← cursor.lexer.pull
    return (t, { lexer, peeked := t })

/-- The error at the end of the text. -/
def missing (cursor : Cursor) (expected : String) : SyntaxError :=
  ⟨cursor.lexer.location, .unexpectedEnd expected⟩

/-- Takes a token that must be there. -/
def expect (cursor : Cursor) (expected : String) : Except SyntaxError (Token × Cursor) := do
  let (found, cursor) ← cursor.next
  match found with
  | some t => return (t, cursor)
  | none => throw (cursor.missing expected)

/-- Takes a token that must be this punctuation mark. -/
def expectMark (cursor : Cursor) (mark : String) : Except SyntaxError (Token × Cursor) := do
  let (t, cursor) ← cursor.expect (quoted mark)
  if t.isPunctuation mark then return (t, cursor) else throw (t.unexpected (quoted mark))

/-- Takes a token if it is this punctuation mark. -/
def eat (cursor : Cursor) (mark : String) : Except SyntaxError (Bool × Cursor) := do
  let (found, cursor) ← cursor.peek
  if found.any (·.isPunctuation mark) then
    let (_, cursor) ← cursor.next
    return (true, cursor)
  else return (false, cursor)

/-! ## What is left -/

/-- How much there is to read: characters, and the token that waits. -/
def size (cursor : Cursor) : Nat := cursor.lexer.rest.length + cursor.peeked.toList.length

variable {cursor later : Cursor} {t : Token}

theorem pull_size {lexer left : Lexer} {found : Option Token}
    (h : lexer.pull = .ok (found, left)) :
    left.rest.length + found.toList.length ≤ lexer.rest.length := by
  unfold Lexer.pull at h
  split at h
  · rename_i hstep
    cases h
    exact Lexer.step_shortens hstep
  · cases h
    exact Nat.zero_le _
  · cases h

theorem next_size {found : Option Token} (h : cursor.next = .ok (found, later)) :
    later.size + found.toList.length ≤ cursor.size := by
  unfold next at h
  split at h
  · rename_i hpeeked
    cases h
    simp [size, hpeeked]
  · rename_i hpeeked
    obtain ⟨⟨found, lexer⟩, hpull, h⟩ := bind_eq_ok.mp h
    cases h
    simpa [size, hpeeked] using pull_size hpull

theorem peek_size {found : Option Token} (h : cursor.peek = .ok (found, later)) :
    later.peeked = found ∧ later.size ≤ cursor.size := by
  unfold peek at h
  split at h
  · rename_i hpeeked
    cases h
    exact ⟨hpeeked, Nat.le_refl _⟩
  · rename_i hpeeked
    obtain ⟨⟨found, lexer⟩, hpull, h⟩ := bind_eq_ok.mp h
    cases h
    exact ⟨rfl, by simpa [size, hpeeked] using pull_size hpull⟩

/-- Taking the token that was looked at leaves less. -/
theorem next_size_of_peek {ahead : Cursor} {found : Option Token}
    (h : cursor.peek = .ok (some t, ahead)) (hnext : ahead.next = .ok (found, later)) :
    later.size < cursor.size := by
  obtain ⟨hpeeked, hsize⟩ := peek_size h
  rw [next, hpeeked] at hnext
  cases hnext
  simp only [size, hpeeked, Option.toList_some, List.length_singleton] at hsize ⊢
  simp only [Option.toList_none, List.length_nil]
  omega

theorem expect_size {expected : String} (h : cursor.expect expected = .ok (t, later)) :
    later.size < cursor.size := by
  obtain ⟨⟨found, left⟩, hnext, h⟩ := bind_eq_ok.mp h
  cases found with
  | none => cases h
  | some x =>
    cases h
    exact next_size hnext

theorem expectMark_size {mark : String} (h : cursor.expectMark mark = .ok (t, later)) :
    later.size < cursor.size := by
  obtain ⟨⟨x, left⟩, hexpect, h⟩ := bind_eq_ok.mp h
  simp only at h
  split at h
  · cases h
    exact expect_size hexpect
  · cases h

theorem eat_size {mark : String} {found : Bool} (h : cursor.eat mark = .ok (found, later)) :
    later.size + found.toNat ≤ cursor.size := by
  obtain ⟨⟨seen, ahead⟩, hpeek, h⟩ := bind_eq_ok.mp h
  simp only at h
  split at h
  · obtain ⟨⟨taken, left⟩, hnext, h⟩ := bind_eq_ok.mp h
    cases h
    cases seen with
    | none => simp at *
    | some t => exact next_size_of_peek hpeek hnext
  · cases h
    exact (peek_size hpeek).2

/-! ## Brackets and statements -/

/-- Reads up to and including the bracket that closes the outermost of the open ones. -/
def skipBalanced (cursor : Cursor) : List Token → Except SyntaxError Cursor
  | [] => .ok cursor
  | top :: outer => do
    match ← witnessed cursor.next with
    | ⟨(none, _), _⟩ => throw top.unclosed
    | ⟨(some t, later), _⟩ => later.skipBalanced (← bracketStep top outer t)
termination_by cursor.size
decreasing_by exact next_size ‹cursor.next = .ok (some t, later)›

theorem skipBalanced_size {brackets : List Token} (h : cursor.skipBalanced brackets = .ok later) :
    later.size ≤ cursor.size := by
  fun_induction skipBalanced cursor brackets with
  | case1 cursor =>
    cases h
    exact Nat.le_refl _
  | case2 cursor top outer ih =>
    obtain ⟨⟨found, left⟩, hnext, h⟩ := witnessed_bind_eq_ok h
    cases found with
    | none => cases h
    | some t =>
      obtain ⟨brackets, _, h⟩ := bind_eq_ok.mp h
      have hleft := next_size hnext
      have hlater := ih t left hnext brackets h
      omega

/-- Reads up to and including the semicolon that ends a statement. -/
def skipStatement (cursor : Cursor) : Except SyntaxError Cursor := do
  let ⟨(t, later), _⟩ ← witnessed (cursor.expect "`;`")
  if t.isPunctuation ";" then return later
  else if t.opens then
    let ⟨left, _⟩ ← witnessed (later.skipBalanced [t])
    left.skipStatement
  else if t.closes then throw (t.unexpected "`;`")
  else later.skipStatement
termination_by cursor.size
decreasing_by
  · have htaken := expect_size ‹cursor.expect "`;`" = .ok (t, later)›
    have hskipped := skipBalanced_size ‹later.skipBalanced [t] = .ok left›
    omega
  · exact expect_size ‹cursor.expect "`;`" = .ok (t, later)›

theorem skipStatement_size (h : cursor.skipStatement = .ok later) : later.size ≤ cursor.size := by
  fun_induction skipStatement cursor with
  | case1 cursor ihBalanced ih =>
    obtain ⟨⟨t, left⟩, hexpect, h⟩ := witnessed_bind_eq_ok h
    have hleft := expect_size hexpect
    simp only at h
    split_ifs at h with hsemicolon hopens hcloses
    · cases h
      omega
    · obtain ⟨behind, hskip, h⟩ := witnessed_bind_eq_ok h
      have hbehind := skipBalanced_size hskip
      have hlater := ihBalanced t left hexpect behind hskip h
      omega
    · have hlater := ih t left hexpect h
      omega

/-! ## Headers -/

/-- Reads the size of an array and the bracket that closes it. -/
def arraySize (cursor : Cursor) (type : String) : Except SyntaxError (String × Cursor) := do
  let ⟨(t, later), _⟩ ← witnessed (cursor.expect "`]`")
  if t.isPunctuation "]" then return (type, later)
  else if t.kind = .punctuation && !sizeOperators.contains t.text then throw (t.unexpected "`]`")
  else later.arraySize (type ++ t.text)
termination_by cursor.size
decreasing_by exact expect_size ‹cursor.expect "`]`" = .ok (t, later)›

theorem arraySize_size {type type' : String} (h : cursor.arraySize type = .ok (type', later)) :
    later.size ≤ cursor.size := by
  fun_induction arraySize cursor type with
  | case1 cursor type ih =>
    obtain ⟨⟨t, left⟩, hexpect, h⟩ := witnessed_bind_eq_ok h
    have hleft := expect_size hexpect
    simp only at h
    split_ifs at h
    · cases h
      omega
    · have hlater := ih t left hexpect h
      omega

/-- Reads array suffixes and appends their text to a type. -/
def arraySuffix (cursor : Cursor) (type : String) : Except SyntaxError (String × Cursor) := do
  match ← witnessed (cursor.eat "[") with
  | ⟨(false, later), _⟩ => return (type, later)
  | ⟨(true, later), _⟩ =>
    let ⟨(type, left), _⟩ ← witnessed (later.arraySize (type ++ "["))
    left.arraySuffix (type ++ "]")
termination_by cursor.size
decreasing_by
  have htaken := eat_size ‹cursor.eat "[" = .ok (true, later)›
  have hsize := arraySize_size ‹later.arraySize _ = .ok (type, left)›
  simp only [Bool.toNat_true] at htaken
  omega

theorem arraySuffix_size {type type' : String} (h : cursor.arraySuffix type = .ok (type', later)) :
    later.size ≤ cursor.size := by
  fun_induction arraySuffix cursor type with
  | case1 cursor type ih =>
    obtain ⟨⟨found, left⟩, heat, h⟩ := witnessed_bind_eq_ok h
    have hleft := eat_size heat
    cases found with
    | false =>
      cases h
      omega
    | true =>
      obtain ⟨⟨type, behind⟩, hsize, h⟩ := witnessed_bind_eq_ok h
      have hbehind := arraySize_size hsize
      have hlater := ih left heat type behind hsize h
      omega

/-- Reads past qualifiers and layouts, the first of which may be `t`, to the token after them. -/
def skipQualifiers (cursor : Cursor) (expected : String) (t : Token) :
    Except SyntaxError (Token × Cursor) :=
  if t.isQualifier then do
    let ⟨(next, later), _⟩ ← witnessed (cursor.expect expected)
    later.skipQualifiers expected next
  else if t.isWord "layout" then do
    let ⟨(bracket, inside), _⟩ ← witnessed (cursor.expectMark "(")
    let ⟨left, _⟩ ← witnessed (inside.skipBalanced [bracket])
    let ⟨(next, later), _⟩ ← witnessed (left.expect expected)
    later.skipQualifiers expected next
  else .ok (t, cursor)
termination_by cursor.size
decreasing_by
  · exact expect_size ‹cursor.expect expected = .ok (next, later)›
  · have hbracket := expectMark_size ‹cursor.expectMark "(" = .ok (bracket, inside)›
    have hskipped := skipBalanced_size ‹inside.skipBalanced [bracket] = .ok left›
    have htaken := expect_size ‹left.expect expected = .ok (next, later)›
    omega

theorem skipQualifiers_size {word : Token} {expected : String}
    (h : cursor.skipQualifiers expected t = .ok (word, later)) : later.size ≤ cursor.size := by
  fun_induction skipQualifiers cursor expected t with
  | case1 cursor t hqualifier ih =>
    obtain ⟨⟨next, left⟩, hexpect, h⟩ := witnessed_bind_eq_ok h
    have hleft := expect_size hexpect
    have hlater := ih next left hexpect h
    omega
  | case2 cursor t hqualifier hlayout ih =>
    obtain ⟨⟨bracket, inside⟩, hmark, h⟩ := witnessed_bind_eq_ok h
    obtain ⟨behind, hskip, h⟩ := witnessed_bind_eq_ok h
    obtain ⟨⟨next, left⟩, hexpect, h⟩ := witnessed_bind_eq_ok h
    have hinside := expectMark_size hmark
    have hbehind := skipBalanced_size hskip
    have hleft := expect_size hexpect
    have hlater := ih bracket inside hmark behind hskip next left hexpect h
    omega
  | case3 cursor t hqualifier hlayout =>
    cases h
    exact Nat.le_refl _

/-- Reads the word of a type, which `first` starts, qualifiers before it. -/
def typeWord (cursor : Cursor) (expected : String) (first : Token) :
    Except SyntaxError (Token × Cursor) := do
  let (t, cursor) ← cursor.skipQualifiers expected first
  if t.isIdentifier then return (t, cursor) else throw (t.unexpected expected)

theorem typeWord_size {word : Token} {expected : String}
    (h : cursor.typeWord expected t = .ok (word, later)) : later.size ≤ cursor.size := by
  obtain ⟨⟨t, left⟩, hskip, h⟩ := bind_eq_ok.mp h
  have hleft := skipQualifiers_size hskip
  simp only at h
  split at h
  · cases h
    exact hleft
  · cases h

/-- Reads up to the comma or parenthesis that ends the default value of a parameter. -/
def skipDefault (cursor : Cursor) : Except SyntaxError Cursor := do
  match ← witnessed cursor.peek with
  | ⟨(none, ahead), _⟩ => throw (ahead.missing "`)`")
  | ⟨(some t, ahead), _⟩ =>
    if t.isPunctuation "," || t.isPunctuation ")" then return ahead
    let ⟨(_, later), _⟩ ← witnessed ahead.next
    if t.opens then
      let ⟨left, _⟩ ← witnessed (later.skipBalanced [t])
      left.skipDefault
    else if t.isPunctuation "]" || t.isPunctuation "\x7d" || t.isPunctuation ";" then
      throw (t.unexpected "`)`")
    else later.skipDefault
termination_by cursor.size
decreasing_by
  · have htaken := next_size_of_peek ‹cursor.peek = .ok (some t, ahead)› ‹ahead.next = .ok (_, later)›
    have hskipped := skipBalanced_size ‹later.skipBalanced [t] = .ok left›
    omega
  · exact next_size_of_peek ‹cursor.peek = .ok (some t, ahead)› ‹ahead.next = .ok (_, later)›

theorem skipDefault_size (h : cursor.skipDefault = .ok later) : later.size ≤ cursor.size := by
  fun_induction skipDefault cursor with
  | case1 cursor ihBalanced ih =>
    obtain ⟨⟨found, ahead⟩, hpeek, h⟩ := witnessed_bind_eq_ok h
    have hahead := peek_size hpeek
    cases found with
    | none => cases h
    | some t =>
      simp only at h
      split at h
      · cases h
        exact hahead.2
      · obtain ⟨⟨taken, left⟩, hnext, h⟩ := witnessed_bind_eq_ok h
        have hleft := next_size_of_peek hpeek hnext
        simp only at h
        split_ifs at h
        · obtain ⟨behind, hskip, h⟩ := witnessed_bind_eq_ok h
          have hbehind := skipBalanced_size hskip
          have hlater := ihBalanced t ahead hpeek taken left hnext behind hskip h
          omega
        · have hlater := ih t ahead hpeek taken left hnext h
          omega

/-- Reads one parameter: its type, its name, array suffixes after either, and a default value. -/
def parameter (cursor : Cursor) : Except SyntaxError (Socket × Cursor) := do
  let (first, cursor) ← cursor.expect "a parameter type"
  let (word, cursor) ← cursor.typeWord "a parameter type" first
  let (type, cursor) ← cursor.arraySuffix word.text
  let (name, cursor) ← cursor.expect "a parameter name"
  if !name.isIdentifier then throw ⟨name.location, .unnamedParameter type⟩
  let (type, cursor) ← cursor.arraySuffix type
  let socket : Socket := ⟨.ofName type, name.text⟩
  let (hasDefault, cursor) ← cursor.eat "="
  if hasDefault then return (socket, ← cursor.skipDefault) else return (socket, cursor)

theorem parameter_size {socket : Socket} (h : cursor.parameter = .ok (socket, later)) :
    later.size < cursor.size := by
  obtain ⟨⟨first, c₁⟩, hfirst, h⟩ := bind_eq_ok.mp h
  obtain ⟨⟨word, c₂⟩, hword, h⟩ := bind_eq_ok.mp h
  obtain ⟨⟨type, c₃⟩, htype, h⟩ := bind_eq_ok.mp h
  obtain ⟨⟨name, c₄⟩, hname, h⟩ := bind_eq_ok.mp h
  have h₁ := expect_size hfirst
  have h₂ := typeWord_size hword
  have h₃ := arraySuffix_size htype
  have h₄ := expect_size hname
  simp only at h
  split at h
  · cases h
  · obtain ⟨⟨type', c₅⟩, htype', h⟩ := bind_eq_ok.mp h
    obtain ⟨⟨hasDefault, c₆⟩, heat, h⟩ := bind_eq_ok.mp h
    have h₅ := arraySuffix_size htype'
    have h₆ := eat_size heat
    simp only at h h₆
    split at h
    · obtain ⟨c₇, hskip, h⟩ := bind_eq_ok.mp h
      have h₇ := skipDefault_size hskip
      cases h
      omega
    · cases h
      omega

/-- Reads parameters and the parenthesis after the last one. -/
def parameterList (cursor : Cursor) : Except SyntaxError (List Socket × Cursor) := do
  let ⟨(socket, left), _⟩ ← witnessed cursor.parameter
  let ⟨(t, later), _⟩ ← witnessed (left.expect "`,` or `)`")
  if t.isPunctuation ")" then return ([socket], later)
  else if t.isPunctuation "," then
    let (sockets, behind) ← later.parameterList
    return (socket :: sockets, behind)
  else throw (t.unexpected "`,` or `)`")
termination_by cursor.size
decreasing_by
  have hleft := parameter_size ‹cursor.parameter = .ok (socket, left)›
  have hlater := expect_size ‹left.expect "`,` or `)`" = .ok (t, later)›
  omega

theorem parameterList_size {sockets : List Socket}
    (h : cursor.parameterList = .ok (sockets, later)) : later.size ≤ cursor.size := by
  fun_induction parameterList cursor generalizing sockets with
  | case1 cursor ih =>
    obtain ⟨⟨socket, left⟩, hparameter, h⟩ := witnessed_bind_eq_ok h
    obtain ⟨⟨t, behind⟩, hexpect, h⟩ := witnessed_bind_eq_ok h
    have hleft := parameter_size hparameter
    have hbehind := expect_size hexpect
    simp only at h
    split_ifs at h
    · cases h
      omega
    · obtain ⟨⟨others, last⟩, hlist, h⟩ := bind_eq_ok.mp h
      cases h
      have hlast := ih socket left hparameter t behind hexpect hlist
      omega

/-- A copy of the cursor behind `void)`, if that is what comes next. -/
def voidAhead (cursor : Cursor) : Except SyntaxError (Option Cursor) := do
  let (found, copy) ← cursor.next
  if found.any (·.isWord "void") then
    let (found, copy) ← copy.next
    return if found.any (·.isPunctuation ")") then some copy else none
  else return none

theorem voidAhead_size (h : cursor.voidAhead = .ok (some later)) : later.size ≤ cursor.size := by
  obtain ⟨⟨found, left⟩, hnext, h⟩ := bind_eq_ok.mp h
  have hleft := next_size hnext
  simp only at h
  split at h
  · obtain ⟨⟨found', behind⟩, hnext', h⟩ := bind_eq_ok.mp h
    have hbehind := next_size hnext'
    simp only at h hbehind
    split at h
    · cases h
      omega
    · cases h
  · cases h

/-- Reads what follows the opening parenthesis of a header, up to its closing
one. Nothing and the word `void` both mean that there are no parameters. -/
def parameters (cursor : Cursor) : Except SyntaxError (List Socket × Cursor) := do
  let (closed, cursor) ← cursor.eat ")"
  if closed then return ([], cursor)
  match ← cursor.voidAhead with
  | some behind => return ([], behind)
  | none => cursor.parameterList

theorem parameters_size {sockets : List Socket} (h : cursor.parameters = .ok (sockets, later)) :
    later.size ≤ cursor.size := by
  obtain ⟨⟨closed, left⟩, heat, h⟩ := bind_eq_ok.mp h
  have hleft := eat_size heat
  simp only at h
  split at h
  · cases h
    omega
  · obtain ⟨found, hvoid, h⟩ := bind_eq_ok.mp h
    cases found with
    | some behind =>
      have hbehind := voidAhead_size hvoid
      cases h
      omega
    | none =>
      have hlater := parameterList_size h
      omega

/-- Reads the semicolon or the body after a header; says whether there is a body. -/
def headerEnd (cursor : Cursor) : Except SyntaxError (Bool × Cursor) := do
  let (t, cursor) ← cursor.expect "`;` or `\x7b`"
  if t.isPunctuation ";" then return (false, cursor)
  else if t.isPunctuation "\x7b" then return (true, ← cursor.skipBalanced [t])
  else throw (t.unexpected "`;` or `\x7b`")

theorem headerEnd_size {hasBody : Bool} (h : cursor.headerEnd = .ok (hasBody, later)) :
    later.size ≤ cursor.size := by
  obtain ⟨⟨t, left⟩, hexpect, h⟩ := bind_eq_ok.mp h
  have hleft := expect_size hexpect
  simp only at h
  split_ifs at h
  · cases h
    omega
  · obtain ⟨behind, hskip, h⟩ := bind_eq_ok.mp h
    have hbehind := skipBalanced_size hskip
    cases h
    omega

/-! ## Items -/

/-- Reads what follows the type of a declaration: a global or a function. -/
def declarator (cursor : Cursor) (word : Token) :
    Except SyntaxError (Option Signature × Cursor) := do
  let (type, cursor) ← cursor.arraySuffix word.text
  let (name, cursor) ← cursor.expect "a name"
  if !name.isIdentifier then throw (name.unexpected "a name")
  let (opened, cursor) ← cursor.eat "("
  if opened then
    let (sockets, cursor) ← cursor.parameters
    let (hasBody, cursor) ← cursor.headerEnd
    return (some ⟨type, name.text, sockets, hasBody⟩, cursor)
  else return (none, ← cursor.skipStatement)

theorem declarator_size {word : Token} {found : Option Signature}
    (h : cursor.declarator word = .ok (found, later)) : later.size ≤ cursor.size := by
  obtain ⟨⟨type, c₁⟩, htype, h⟩ := bind_eq_ok.mp h
  obtain ⟨⟨name, c₂⟩, hname, h⟩ := bind_eq_ok.mp h
  have h₁ := arraySuffix_size htype
  have h₂ := expect_size hname
  simp only at h
  split at h
  · cases h
  · obtain ⟨⟨opened, c₃⟩, heat, h⟩ := bind_eq_ok.mp h
    have h₃ := eat_size heat
    simp only at h h₃
    split at h
    · obtain ⟨⟨sockets, c₄⟩, hsockets, h⟩ := bind_eq_ok.mp h
      obtain ⟨⟨hasBody, c₅⟩, hend, h⟩ := bind_eq_ok.mp h
      have h₄ := parameters_size hsockets
      have h₅ := headerEnd_size hend
      cases h
      simp only at h₅ ⊢
      omega
    · obtain ⟨c₄, hskip, h⟩ := bind_eq_ok.mp h
      have h₄ := skipStatement_size hskip
      cases h
      omega

/-- The name of a structure belongs to its type. -/
def structureName (cursor : Cursor) (word : Token) : Except SyntaxError Cursor := do
  if word.isWord "struct" then
    let (found, cursor) ← cursor.peek
    if found.any Token.isIdentifier then
      let (_, cursor) ← cursor.next
      return cursor
    else return cursor
  else return cursor

theorem structureName_size {word : Token} (h : cursor.structureName word = .ok later) :
    later.size ≤ cursor.size := by
  unfold structureName at h
  split at h
  · obtain ⟨⟨found, ahead⟩, hpeek, h⟩ := bind_eq_ok.mp h
    have hahead := peek_size hpeek
    simp only at h
    split at h
    · obtain ⟨⟨taken, left⟩, hnext, h⟩ := bind_eq_ok.mp h
      have hleft := next_size hnext
      cases h
      simp only
      omega
    · cases h
      exact hahead.2
  · cases h
    exact Nat.le_refl _

/-- Reads a block, a global or a function, of which the type has been read. -/
def afterType (cursor : Cursor) (word : Token) :
    Except SyntaxError (Option Signature × Cursor) := do
  let (found, cursor) ← cursor.peek
  if found.any (·.isPunctuation "\x7b") then
    let (bracket, cursor) ← cursor.expectMark "\x7b"
    let cursor ← cursor.skipBalanced [bracket]
    return (none, ← cursor.skipStatement)
  else cursor.declarator word

theorem afterType_size {word : Token} {found : Option Signature}
    (h : cursor.afterType word = .ok (found, later)) : later.size ≤ cursor.size := by
  obtain ⟨⟨seen, c₁⟩, hpeek, h⟩ := bind_eq_ok.mp h
  have h₁ := peek_size hpeek
  simp only at h
  split at h
  · obtain ⟨⟨bracket, c₂⟩, hmark, h⟩ := bind_eq_ok.mp h
    obtain ⟨c₃, hskip, h⟩ := bind_eq_ok.mp h
    obtain ⟨c₄, hstatement, h⟩ := bind_eq_ok.mp h
    have h₂ := expectMark_size hmark
    have h₃ := skipBalanced_size hskip
    have h₄ := skipStatement_size hstatement
    cases h
    simp only at h₃
    omega
  · have h₂ := declarator_size h
    omega

/-- Reads one top-level item that starts with `first`; only a function header leaves something. -/
def item (cursor : Cursor) (first : Token) : Except SyntaxError (Option Signature × Cursor) :=
  if first.kind = .directive || first.isPunctuation ";" then .ok (none, cursor)
  else if !first.isIdentifier then .error (first.unexpected "a declaration")
  else if first.isWord "precision" then do return (none, ← cursor.skipStatement)
  else do
    let (word, cursor) ← cursor.typeWord "a type" first
    (← cursor.structureName word).afterType word

theorem item_size {first : Token} {found : Option Signature}
    (h : cursor.item first = .ok (found, later)) : later.size ≤ cursor.size := by
  unfold item at h
  split_ifs at h
  · cases h
    exact Nat.le_refl _
  · obtain ⟨left, hskip, h⟩ := bind_eq_ok.mp h
    cases h
    exact skipStatement_size hskip
  · obtain ⟨⟨word, c₁⟩, hword, h⟩ := bind_eq_ok.mp h
    obtain ⟨c₂, hname, h⟩ := bind_eq_ok.mp h
    have h₁ := typeWord_size hword
    have h₂ := structureName_size hname
    have h₃ := afterType_size h
    omega

/-- Reads the next item, if there is one. -/
def nextItem (cursor : Cursor) : Except SyntaxError (Option (Option Signature × Cursor)) := do
  let (found, cursor) ← cursor.next
  match found with
  | none => return none
  | some first => return some (← cursor.item first)

theorem nextItem_size {found : Option Signature} (h : cursor.nextItem = .ok (some (found, later))) :
    later.size < cursor.size := by
  obtain ⟨⟨first, left⟩, hnext, h⟩ := bind_eq_ok.mp h
  have hleft := next_size hnext
  cases first with
  | none => cases h
  | some first =>
    obtain ⟨⟨found, later⟩, hitem, h⟩ := bind_eq_ok.mp h
    have hlater := item_size hitem
    cases h
    simp only [Option.toList_some, List.length_singleton] at hleft hlater
    omega

/-- The results of the items that are left: the definitions of the supported functions
among them and, as the last result, the error that ends the reading. -/
def results (cursor : Cursor) : List (Except SyntaxError Definition) :=
  match _ : cursor.nextItem with
  | .error error => [.error error]
  | .ok none => []
  | .ok (some (none, later)) => later.results
  | .ok (some (some s, later)) =>
    if s.isSupported then .ok s.toDefinition :: later.results else later.results
termination_by cursor.size
decreasing_by all_goals exact nextItem_size ‹cursor.nextItem = .ok (some (_, later))›

/-- What the items of a source text give when its tokens are read on demand. -/
def extract (source : String) : List (Except SyntaxError Definition) :=
  results { lexer := { rest := source.toList } }

end Cursor

end ShaderGraph.Glsl
