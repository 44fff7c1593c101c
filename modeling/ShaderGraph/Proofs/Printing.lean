import ShaderGraph.Proofs.Balance
import ShaderGraph.Proofs.OnDemand
import ShaderGraph.Proofs.Placement

/-!
Function headers that are printed and read again. A `Header` is what a line shows of a
function, with the facts that make it one: its names are names, the words that begin its
types are no qualifiers, and in its body brackets match. Each part of the text is taken by
one rule for `Yields`, down to the body, whose tokens are those that it has alone; so a line
yields its own signature and no other, and the lines of a text one after another
(`definitions_lines`).
-/

namespace ShaderGraph.Glsl

/-! ## What is printed -/

/-- No comment opens in the text. -/
def Uncommented (text : List Char) : Prop := ¬ ['/', '/'] <:+: text ∧ ¬ ['/', '*'] <:+: text

instance (text : List Char) : Decidable (Uncommented text) :=
  inferInstanceAs (Decidable (¬ ['/', '/'] <:+: text ∧ ¬ ['/', '*'] <:+: text))

/-- A parameter to print. Its type may be any word but a qualifier: `void` is one. -/
structure HeaderParameter where
  type : String
  sizes : List String
  name : String
  type_isName : isName type
  type_free : type ∉ "layout" :: qualifiers
  sizes_digits : ∀ size ∈ sizes, size ≠ "" ∧ size.toList.all Char.isDigit
  name_isName : isName name

/-- A body to print. Its text is read to the end, and brackets match in it. -/
structure Body where
  text : String
  no_directive : '#' ∉ text.toList
  no_comment : Uncommented text.toList
  ends : (lex text).ending.error = none
  nested : Nested (fun _ => true) (lex text).tokens

/-- A function to print, with a body or without one. -/
structure Header where
  returnType : String
  name : String
  parameters : List HeaderParameter
  body? : Option Body
  returnType_isName : isName returnType
  returnType_free : returnType ∉ "layout" :: qualifiers
  returnType_plain : returnType ≠ "struct" ∧ returnType ≠ "precision"
  name_isName : isName name

/-- Sizes as they follow a type. -/
def suffixText (sizes : List String) : String :=
  String.join (sizes.map fun size => "[" ++ size ++ "]")

namespace HeaderParameter

def typeText (p : HeaderParameter) : String := p.type ++ suffixText p.sizes

def text (p : HeaderParameter) : String := p.typeText ++ " " ++ p.name

def socket (p : HeaderParameter) : Socket := ⟨.ofName p.typeText, p.name⟩

end HeaderParameter

namespace Header

def ending (h : Header) : String :=
  match h.body? with
  | none => ";"
  | some body => " \x7b " ++ body.text ++ " \x7d"

def text (h : Header) : String :=
  h.returnType ++ " " ++ h.name ++
    "(" ++ ", ".intercalate (h.parameters.map HeaderParameter.text) ++ ")" ++ h.ending

def signature (h : Header) : Signature :=
  ⟨h.returnType, h.name, h.parameters.map HeaderParameter.socket, h.body?.isSome⟩

end Header

/-! ## Sizes -/

theorem spanNumber_digits (hex : Bool) (previous : Char) {digits : List Char}
    (h : ∀ c ∈ digits, c.isDigit) (text : List Char) :
    spanNumber hex previous (digits ++ ']' :: text) = (digits, ']' :: text) := by
  induction digits generalizing previous with
  | nil => simp [spanNumber]
  | cons c digits ih =>
    obtain ⟨hc, hrest⟩ := List.forall_mem_cons.mp h
    have halpha : c.isAlphanum := by simp [Char.isAlphanum, hc]
    simp [spanNumber, halpha, ih c hrest]

theorem not_isWordStart_of_isDigit {c : Char} (h : c.isDigit) : isWordStart c = false := by
  have hn : c.val.toNat = c.toNat := rfl
  have halpha : c.isAlpha = (c.isUpper || c.isLower) := rfl
  have hupper : c.isUpper = decide ('A'.val ≤ c.val ∧ c.val ≤ 'Z'.val) := rfl
  have hlower : c.isLower = (decide ('a'.val ≤ c.val) && decide (c.val ≤ 'z'.val)) := rfl
  simp only [Char.isDigit, Bool.and_eq_true, decide_eq_true_eq, ge_iff_le, UInt32.le_iff_toNat_le,
    hn, UInt32.reduceToNat, Char.reduceVal] at h
  simp only [isWordStart, halpha, hupper, hlower, Bool.or_eq_false_iff, Bool.and_eq_false_iff,
    decide_eq_false_iff_not, UInt32.le_iff_toNat_le, beq_eq_false_iff_ne, ne_eq, Char.ext_iff,
    UInt32.toNat_inj.symm, hn, UInt32.reduceToNat, Char.reduceVal]
  omega

namespace Yields

variable {text : List Char} {Q : List Token → Prop}

/-- The size of an array. -/
theorem size {size : String} (hne : size ≠ "") (hdigits : size.toList.all Char.isDigit)
    (h : Yields (']' :: text) fun tokens => ∀ t : Token, t.kind = .number → t.text = size →
      Q (t :: tokens)) : Yields (size.toList ++ ']' :: text) Q := by
  rw [List.all_eq_true] at hdigits
  cases hc : size.toList with
  | nil => exact absurd (String.toList_eq_nil_iff.mp hc) hne
  | cons c rest =>
    rw [hc] at hdigits
    have hdigit : c.isDigit := hdigits c (List.mem_cons_self ..)
    have hne : c ≠ '/' ∧ c ≠ '#' := by
      constructor <;> rintro rfl <;> cases hdigit
    have hblank : Text.isBlank c = false := by
      by_contra hb
      rw [Bool.not_eq_false] at hb
      have hno := not_isAlphanum_of_isBlank hb
      simp [Char.isAlphanum, hdigit] at hno
    have hspan := spanNumber_digits (isHexadecimal (c :: (rest ++ ']' :: text))) '\x00' hdigits text
    have hlexeme : ∀ lineStart, lexeme lineStart c (rest ++ ']' :: text) =
        .ok (.number, c :: rest, ']' :: text) := by
      intro lineStart
      rw [List.cons_append] at hspan
      simp only [lexeme, hne.2, not_isWordStart_of_isDigit hdigit, startsNumber, hdigit, hspan,
        ↓reduceIte, Bool.true_or, Bool.false_eq_true]
    refine token hblank hne.1 hlexeme (h.mono ?_)
    intro tokens hq t hk ht
    exact hq t hk (by rw [ht, ← hc, String.ofList_toList])

theorem suffixes {sizes : List String}
    (hsizes : ∀ size ∈ sizes, size ≠ "" ∧ size.toList.all Char.isDigit)
    (h : Yields text fun tokens => ∀ w, Suffixes w → spelling w = suffixText sizes →
      Q (w ++ tokens)) : Yields ((suffixText sizes).toList ++ text) Q := by
  induction sizes generalizing Q with
  | nil => exact h.mono fun tokens hq => hq [] .nil rfl
  | cons size sizes ih =>
    obtain ⟨⟨hne, hdigits⟩, hrest⟩ := List.forall_mem_cons.mp hsizes
    have htext : (suffixText (size :: sizes)).toList ++ text =
        '[' :: (size.toList ++ ']' :: ((suffixText sizes).toList ++ text)) := by
      simp [suffixText, String.toList_append]
    rw [htext]
    refine .mark (by decide) (.size hne hdigits (.mark (by decide) (ih hrest (h.mono ?_))))
    intro tokens hq w hw hspelling c hc number hk hnumber o ho
    have hsize : ∀ t ∈ [number], t.inSize := by simp [Token.inSize, hk]
    refine hq (o :: ([number] ++ c :: w)) (.cons ho hsize hc hw) ?_
    rw [List.singleton_append, spelling_cons, spelling_cons, spelling_cons, hspelling, hnumber,
      Token.text_of_isPunctuation ho, Token.text_of_isPunctuation hc]
    simp [suffixText, String.append_assoc]

/-! ## Parameters -/

theorem parameter (p : HeaderParameter) (htext : text.head?.all (!isWordChar ·))
    (h : Yields text fun tokens => ∀ w, Parameter w p.socket → Q (w ++ tokens)) :
    Yields (p.text.toList ++ text) Q := by
  have hsplit : p.text.toList ++ text =
      p.type.toList ++ ((suffixText p.sizes).toList ++ ' ' :: (p.name.toList ++ text)) := by
    simp [HeaderParameter.text, HeaderParameter.typeText, String.toList_append]
  have hstop : ((suffixText p.sizes).toList ++ ' ' :: (p.name.toList ++ text)).head?.all
      (!isWordChar ·) := by
    cases hs : p.sizes with
    | nil => rfl
    | cons size sizes =>
      have hbracket : isWordChar '[' = false := rfl
      simp [suffixText, String.toList_append, hbracket]
  rw [hsplit]
  refine .word p.type_isName hstop (.suffixes p.sizes_digits (.blank (by decide)
    (.word p.name_isName htext (h.mono ?_))))
  intro tokens hq name hname htname w hw hspelling type htype httype
  have hnames : type.namesType := Token.namesType_of_text htype (httype ▸ p.type_free)
  have hidentifier : name.isIdentifier := by simp [Token.isIdentifier, hname]
  have hparameter := Parameter.mk .nil hnames hw hidentifier .nil .none
  have hsocket : (⟨.ofName (type.text ++ spelling w ++ spelling []), name.text⟩ : Socket) =
      p.socket := by
    rw [hspelling, httype, htname]
    simp [HeaderParameter.socket, HeaderParameter.typeText, spelling]
  rw [hsocket] at hparameter
  simpa using hq _ hparameter

/-- Parameters with commas between them. -/
theorem parameterList (p : HeaderParameter) (ps : List HeaderParameter)
    (htext : text.head?.all (!isWordChar ·))
    (h : Yields text fun tokens => ∀ w,
      ParameterList w ((p :: ps).map HeaderParameter.socket) → Q (w ++ tokens)) :
    Yields ((", ".intercalate ((p :: ps).map HeaderParameter.text)).toList ++ text) Q := by
  induction ps generalizing p Q with
  | nil =>
    have hone : (", ".intercalate ([p].map HeaderParameter.text)).toList = p.text.toList := by simp
    rw [hone]
    exact .parameter p htext (h.mono fun tokens hq w hw => hq w (.one hw))
  | cons next ps ih =>
    have hsplit : (", ".intercalate ((p :: next :: ps).map HeaderParameter.text)).toList ++ text =
        p.text.toList ++ ',' :: ' ' ::
          ((", ".intercalate ((next :: ps).map HeaderParameter.text)).toList ++ text) := by
      simp [String.toList_intercalate]
    rw [hsplit]
    refine .parameter p rfl (.mark (by decide) (.blank (by decide) (ih next (h.mono ?_))))
    intro tokens hq v hv comma hcomma w hw
    simpa using hq _ (.cons hw hcomma hv)

theorem parameters (ps : List HeaderParameter) (htext : text.head?.all (!isWordChar ·))
    (h : Yields text fun tokens => ∀ w,
      Parameters w (ps.map HeaderParameter.socket) → Q (w ++ tokens)) :
    Yields ((", ".intercalate (ps.map HeaderParameter.text)).toList ++ text) Q := by
  cases ps with
  | nil => exact h.mono fun tokens hq => hq [] .nothing
  | cons p ps => exact .parameterList p ps htext (h.mono fun tokens hq w hw => hq w (.list hw))

end Yields

/-! ## Bodies -/

theorem Uncommented.of_suffix {text rest : List Char} (h : Uncommented text)
    (hsuffix : rest <:+ text) : Uncommented rest :=
  ⟨fun hin => h.1 (hin.trans hsuffix.isInfix), fun hin => h.2 (hin.trans hsuffix.isInfix)⟩

/-- Without comments, trivia is white space. -/
theorem skipTrivia_uncommented {l l' : Location} {text rest : List Char} (hno : Uncommented text)
    (h : skipTrivia .between l text = .ok (l', rest)) :
    ∃ front, text = front ++ rest ∧ ∀ c ∈ front, Text.isBlank c := by
  induction text generalizing l with
  | nil =>
    cases h
    exact ⟨[], rfl, by simp⟩
  | cons c text ih =>
    by_cases hc : Text.isBlank c
    · have hstep : Trivia.between.step l c text.head? = some .between := by simp [Trivia.step, hc]
      rw [skipTrivia, hstep] at h
      obtain ⟨front, rfl, hfront⟩ := ih (hno.of_suffix (List.suffix_cons c text)) h
      exact ⟨c :: front, rfl, List.forall_mem_cons.mpr ⟨hc, hfront⟩⟩
    · have hslash : ¬ (c = '/' ∧ (text.head? = some '/' ∨ text.head? = some '*')) := by
        rintro ⟨rfl, hnext | hnext⟩
        · obtain ⟨later, rfl⟩ := List.head?_eq_some_iff.mp hnext
          exact hno.1 ⟨[], later, rfl⟩
        · obtain ⟨later, rfl⟩ := List.head?_eq_some_iff.mp hnext
          exact hno.2 ⟨[], later, rfl⟩
      rw [skipTrivia, Trivia.step_between_eq_none.mpr ⟨hc, hslash⟩] at h
      cases h
      exact ⟨[], rfl, by simp⟩

theorem lexeme_lineStart {c : Char} (hc : c ≠ '#') (lineStart lineStart' : Bool)
    (rest : List Char) : lexeme lineStart c rest = lexeme lineStart' c rest := by
  simp only [lexeme, hc, ↓reduceIte]

/-- **A text before a boundary** yields the tokens that it has alone, at other places. A
directive or a comment could go on behind the text, so that it must have none. -/
theorem Lexer.Reads.yields {lexer : Lexer} {tokens : List Token} {x : List Char}
    {Q : List Token → Prop} (h : Reads lexer tokens) (hx : Boundary x)
    (hdirective : '#' ∉ lexer.rest) (hno : Uncommented lexer.rest)
    (hyields : Yields x fun more => ∀ tokens' : List Token,
      tokens'.map Token.lexeme = tokens.map Token.lexeme → Q (tokens' ++ more)) :
    Yields (lexer.rest ++ x) Q := by
  induction h generalizing Q with
  | finished hstep =>
    obtain ⟨front, hrest, hblank⟩ := skipTrivia_uncommented hno (step_eq_finished.mp hstep)
    rw [List.append_nil] at hrest
    rw [hrest]
    exact .blanks hblank (hyields.mono fun more hq => hq [] rfl)
  | @token lexer next t tokens hstep _ ih =>
    obtain ⟨l, c, rest, kind, text, later, htrivia, hlexeme, rfl, rfl⟩ := step_eq_token.mp hstep
    obtain ⟨front, hrest, hblank⟩ := skipTrivia_uncommented hno htrivia
    obtain ⟨hsplit, _⟩ : c :: rest = text ++ later ∧ text ≠ [] := lexeme_splits hlexeme
    have hsuffix : later <:+ lexer.rest := by
      rw [hrest, hsplit]
      exact ⟨front ++ text, by simp⟩
    have hc : c ≠ '#' := by
      rintro rfl
      exact hdirective (by simp [hrest])
    have hstarts : ∀ l, Trivia.between.step l c (rest ++ x).head? = none := by
      intro l
      rw [Trivia.step_append hx]
      exact Trivia.step_between_eq_none.mpr
        (Trivia.step_between_eq_none.mp (skipTrivia_stop htrivia))
    have hfirst : ∀ lineStart, lexeme lineStart c (rest ++ x) = .ok (kind, text, later ++ x) := by
      intro lineStart
      rw [lexeme_append hx hc, lexeme_lineStart hc lineStart, hlexeme]
      rfl
    rw [hrest, List.append_assoc]
    refine .blanks hblank (.token_of_starts hstarts hfirst ?_)
    refine ih (fun hin => hdirective (hsuffix.subset hin)) (hno.of_suffix hsuffix)
      (hyields.mono ?_)
    intro more hq tokens' hsame t hk ht
    refine hq (t :: tokens') ?_
    simp [hsame, Token.lexeme, hk, ht]

section Lexemes

variable {t t' : Token} (h : t'.lexeme = t.lexeme)

include h

theorem Token.isPunctuation_of_lexeme (text : String) :
    t'.isPunctuation text = t.isPunctuation text := by
  obtain ⟨hk, ht⟩ := Prod.mk.inj h
  simp only [isPunctuation, hk, ht]

theorem Token.opens_of_lexeme : t'.opens = t.opens := by
  simp only [opens, isPunctuation_of_lexeme h]

theorem Token.closes_of_lexeme : t'.closes = t.closes := by
  simp only [closes, isPunctuation_of_lexeme h]

theorem Token.closer_of_lexeme : t'.closer = t.closer := by
  obtain ⟨_, ht⟩ := Prod.mk.inj h
  simp only [closer, ht]

end Lexemes

/-- Brackets match wherever the tokens stand. -/
theorem Nested.of_lexemes {w w' : List Token} (h : Nested (fun _ => true) w)
    (hsame : w'.map Token.lexeme = w.map Token.lexeme) : Nested (fun _ => true) w' := by
  generalize hfree : (fun _ : Token => true) = free at h
  induction h generalizing w' with
  | nil =>
    rw [List.map_eq_nil_iff.mp hsame]
    exact .nil
  | plain ho hc hf _ ih =>
    subst hfree
    obtain ⟨t', v', rfl, ht, hv⟩ := List.map_eq_cons_iff.mp hsame
    rw [← Token.opens_of_lexeme ht] at ho
    rw [← Token.closes_of_lexeme ht] at hc
    exact .plain ho hc rfl (ih hv rfl)
  | group ho hc _ _ ihu ihw =>
    rw [List.map_cons, List.map_append, List.map_cons] at hsame
    obtain ⟨o', v', rfl, ho', hv⟩ := List.map_eq_cons_iff.mp hsame
    obtain ⟨u', v', rfl, hu', hv⟩ := List.map_eq_append_iff.mp hv
    obtain ⟨c', w', rfl, hc', hw'⟩ := List.map_eq_cons_iff.mp hv
    rw [← Token.opens_of_lexeme ho'] at ho
    rw [Token.closedBy, ← Token.closer_of_lexeme ho', ← Token.isPunctuation_of_lexeme hc'] at hc
    exact .group ho hc (ihu hu' rfl) (ihw hw' hfree)

theorem yields_ending (header : Header) :
    Yields header.ending.toList (HeaderEnd · header.body?.isSome) := by
  unfold Header.ending
  cases header.body? with
  | none => exact .mark (c := ';') (by decide) (.nil fun t ht => .prototype ht)
  | some body =>
    have htext : (" \x7b " ++ body.text ++ " \x7d").toList =
        ' ' :: '\x7b' :: ' ' :: (body.text.toList ++ [' ', '\x7d']) := by
      simp [String.toList_append]
    have hreads := reads_iff_lex.mpr ⟨body.ends, rfl⟩
    rw [htext]
    refine .blank (by decide) (.mark (by decide) (.blank (by decide) (hreads.yields
      (boundary_cons _ (by decide)) body.no_directive body.no_comment (.blank (by decide)
        (.mark (by decide) (.nil ?_))))))
    intro c hc inner hinner o ho
    have hclosed : o.closedBy c := by
      simpa [Token.closedBy, Token.closer, Token.text_of_isPunctuation ho] using hc
    exact .body ⟨o, inner, c, rfl, ho, hclosed, body.nested.of_lexemes hinner⟩

/-! ## Lines -/

/-- **A line** yields the function that it shows. -/
theorem yields_header (header : Header) :
    Yields header.text.toList (Items · [header.signature]) := by
  have htext : header.text.toList = header.returnType.toList ++ ' ' :: (header.name.toList ++ '(' ::
      ((", ".intercalate (header.parameters.map HeaderParameter.text)).toList ++ ')' ::
        header.ending.toList)) := by
    simp [Header.text, String.toList_append]
  rw [htext]
  refine .word header.returnType_isName rfl (.blank (by decide) (.word header.name_isName rfl
    (.mark (by decide) (.parameters header.parameters rfl (.mark (by decide)
      ((yields_ending header).mono ?_))))))
  intro tokens hend c hc p hp o ho name hname htname type htype httype
  have hnames : type.namesType := Token.namesType_of_text htype (httype ▸ header.returnType_free)
  obtain ⟨hstruct, hprecision⟩ := header.returnType_plain
  rw [← httype] at hstruct hprecision
  have hidentifier : name.isIdentifier := by simp [Token.isIdentifier, hname]
  have hdeclarator : Declarator type _ _ := .function .nil hidentifier ho hp hc hend
  have hitem := Item.declaration .nil hnames (fun _ => Token.not_isWord_of_text hprecision)
    (.none fun h => absurd h (Token.not_isWord_of_text hstruct)) hdeclarator
  have hall := Items.cons hitem .nil
  simpa [Header.signature, spelling, httype, htname] using hall

/-- A line ends in a mark. -/
theorem goesOn_header (header : Header) : goesOn false header.text.toList = false := by
  have hending : [';'] <:+ header.ending.toList ∨ ['\x7d'] <:+ header.ending.toList := by
    unfold Header.ending
    cases header.body? with
    | none => exact .inl (List.suffix_refl _)
    | some body =>
      exact .inr ⟨(" \x7b " ++ body.text ++ " ").toList, by simp [String.toList_append]⟩
  have hsuffix : header.ending.toList <:+ header.text.toList := by
    rw [Header.text, String.toList_append]
    exact List.suffix_append _ _
  rcases hending with h | h
  · exact goesOn_of_last (h.trans hsuffix) (by decide) (by decide)
  · exact goesOn_of_last (h.trans hsuffix) (by decide) (by decide)

/-- **Headers are read back.** Of functions that are printed one on a line, the definitions of
the supported ones are found, in order, whatever the names are and whatever the bodies do. -/
theorem definitions_lines (headers : List Header) :
    definitions ("\n".intercalate (headers.map Header.text)) =
      .ok (((headers.map Header.signature).filter Signature.isSupported).map
        Signature.toDefinition) := by
  induction headers with
  | nil => rfl
  | cons header headers ih =>
    have hfirst := definitions_of_yields (yields_header header)
    cases headers with
    | nil => simpa [supported] using hfirst
    | cons next headers =>
      have htext : "\n".intercalate ((header :: next :: headers).map Header.text) =
          header.text ++ "\n" ++ "\n".intercalate ((next :: headers).map Header.text) := by
        rw [← String.toList_inj]
        simp [String.toList_intercalate]
      rw [htext, definitions_newline (goesOn_header header) hfirst ih, supported, ← List.map_append,
        ← List.filter_append]
      rfl

/-- Names that are words of the language, a parameter of type `void`, and a body with a
division in brackets. -/
theorem definitions_lines_keywords :
    definitions "void in(void void, vec2[3][04] struct);\nvec3 layout() \x7b (a/ b) \x7d" =
      .ok [⟨[⟨.ofName "void", "void"⟩, ⟨.ofName "vec2[3][04]", "struct"⟩], []⟩,
        ⟨[], [⟨.vec3, "layout"⟩]⟩] := by
  have htokens : (lex "(a/ b)").tokens =
      [⟨.punctuation, "(", ⟨1, 1⟩⟩, ⟨.identifier, "a", ⟨1, 2⟩⟩, ⟨.punctuation, "/", ⟨1, 3⟩⟩,
        ⟨.identifier, "b", ⟨1, 5⟩⟩, ⟨.punctuation, ")", ⟨1, 6⟩⟩] := by decide +kernel
  have hnested : Nested (fun _ => true) (lex "(a/ b)").tokens := by
    rw [htokens]
    exact .group (u := [⟨.identifier, "a", ⟨1, 2⟩⟩, ⟨.punctuation, "/", ⟨1, 3⟩⟩,
      ⟨.identifier, "b", ⟨1, 5⟩⟩]) (by decide) (by decide) (.plain (by decide) (by decide) rfl
        (.plain (by decide) (by decide) rfl (.plain (by decide) (by decide) rfl .nil))) .nil
  let body : Body := ⟨"(a/ b)", by decide, by decide +kernel, by decide +kernel, hnested⟩
  let first : Header :=
    ⟨"void", "in",
      [⟨"void", [], "void", by decide, by decide, by decide, by decide⟩,
        ⟨"vec2", ["3", "04"], "struct", by decide, by decide, by decide, by decide⟩],
      none, by decide, by decide, by decide, by decide⟩
  let second : Header :=
    ⟨"vec3", "layout", [], some body, by decide, by decide, by decide, by decide⟩
  exact definitions_lines [first, second]

end ShaderGraph.Glsl
