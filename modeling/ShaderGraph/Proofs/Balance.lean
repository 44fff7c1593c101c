import ShaderGraph.Proofs.Splicing

/-!
Texts that are put together from plain parts. `Yields` says what holds of the tokens of a
text wherever it stands; there is a rule for white space, one for words and one for marks.
A longer text whose tokens need not be known is handled by its characters: as long as they
are safe, only brackets matter, and a text that is `Balanced` can be left out of account
(`yields_closing`).
-/

namespace ShaderGraph.Glsl

/-- What holds of the tokens of a text, wherever it stands. -/
def Yields (text : List Char) (Q : List Token → Prop) : Prop :=
  ∀ l started, ∃ tokens, Lexer.Reads ⟨text, l, started⟩ tokens ∧ Q tokens

/-- A name as the language has it. -/
def isName (name : String) : Bool :=
  name.toList.head?.any isWordStart && name.toList.all isWordChar

theorem definitions_of_yields {source : String} {signatures : List Signature}
    (h : Yields source.toList (Items · signatures)) :
    definitions source = .ok (supported signatures) := by
  obtain ⟨tokens, hreads, hitems⟩ := h .start false
  exact definitions_eq_ok.mpr ⟨tokens, signatures, hreads, hitems, rfl⟩

namespace Yields

variable {text : List Char} {Q : List Token → Prop}

theorem nil (h : Q []) : Yields [] Q := fun _ _ => ⟨[], .nil rfl, h⟩

theorem mono {R : List Token → Prop} (h : Yields text Q) (hQ : ∀ tokens, Q tokens → R tokens) :
    Yields text R := by
  intro l started
  obtain ⟨tokens, hreads, hq⟩ := h l started
  exact ⟨tokens, hreads, hQ tokens hq⟩

/-- White space is passed over. -/
theorem blank {c : Char} (hc : Text.isBlank c) (h : Yields text Q) : Yields (c :: text) Q := by
  intro l started
  have htrivia : skipTrivia .between l (c :: text) = skipTrivia .between (l.advance c) text := by
    rw [skipTrivia]
    simp [Trivia.step, hc]
  by_cases hn : c = '\n'
  · obtain ⟨tokens, hreads, hq⟩ := h (l.advance c) false
    have hline : l.line < (l.advance c).line := by simp [hn, Location.advance]
    exact ⟨tokens, hreads.of_step (Lexer.step_of_later_line htrivia rfl hline), hq⟩
  · obtain ⟨tokens, hreads, hq⟩ := h (l.advance c) started
    have hline : (l.advance c).line = l.line := by simp [hn, Location.advance]
    exact ⟨tokens, hreads.of_step (Lexer.step_of_skipTrivia htrivia (by simp [hline])), hq⟩

/-- White space of any length is passed over. -/
theorem blanks {front : List Char} (hfront : ∀ c ∈ front, Text.isBlank c) (h : Yields text Q) :
    Yields (front ++ text) Q := by
  induction front with
  | nil => exact h
  | cons c front ih =>
    obtain ⟨hc, hrest⟩ := List.forall_mem_cons.mp hfront
    exact .blank hc (ih hrest)

/-- One token, and then the tokens of the rest. -/
theorem token_of_starts {c : Char} {rest word : List Char} {kind : TokenKind}
    (hstarts : ∀ l, Trivia.between.step l c rest.head? = none)
    (hlexeme : ∀ lineStart, lexeme lineStart c rest = .ok (kind, word, text))
    (h : Yields text fun tokens => ∀ t : Token, t.kind = kind → t.text = String.ofList word →
      Q (t :: tokens)) : Yields (c :: rest) Q := by
  intro l started
  obtain ⟨tokens, hreads, hq⟩ := h (l.after word) true
  have htrivia : skipTrivia .between l (c :: rest) = .ok (l, c :: rest) := by
    rw [skipTrivia, hstarts]
  exact ⟨_, .token (Lexer.step_eq_token.mpr ⟨l, c, rest, kind, word, text, htrivia, hlexeme _, rfl,
    rfl⟩) hreads, hq _ rfl rfl⟩

theorem token {c : Char} {rest word : List Char} {kind : TokenKind}
    (hc : Text.isBlank c = false) (hslash : c ≠ '/')
    (hlexeme : ∀ lineStart, lexeme lineStart c rest = .ok (kind, word, text))
    (h : Yields text fun tokens => ∀ t : Token, t.kind = kind → t.text = String.ofList word →
      Q (t :: tokens)) : Yields (c :: rest) Q :=
  token_of_starts (fun _ => Trivia.step_between_eq_none.mpr ⟨by simp [hc], fun hs => hslash hs.1⟩)
    hlexeme h

theorem word {name : String} (hname : isName name)
    (htext : text.head?.all (!isWordChar ·))
    (h : Yields text fun tokens => ∀ t : Token, t.kind = .identifier → t.text = name →
      Q (t :: tokens)) : Yields (name.toList ++ text) Q := by
  simp only [isName, Bool.and_eq_true, List.all_eq_true] at hname
  obtain ⟨hstart, hall⟩ := hname
  have hspan : (name.toList ++ text).span isWordChar = (name.toList, text) := by
    have hnone : text.takeWhile isWordChar = [] ∧ text.dropWhile isWordChar = text := by
      cases text with
      | nil => exact ⟨rfl, rfl⟩
      | cons c text =>
        have hc : isWordChar c = false := by simpa using htext
        simp [hc]
    rw [List.span_eq_takeWhile_dropWhile, List.takeWhile_append_of_pos hall,
      List.dropWhile_append_of_pos hall, hnone.1, hnone.2, List.append_nil]
  cases hc : name.toList with
  | nil => simp [hc] at hstart
  | cons c rest =>
    rw [hc] at hspan hstart
    have hcstart : isWordStart c := by simpa using hstart
    have hcword : isWordChar c := hall c (by simp [hc])
    have hne : c ≠ '/' ∧ c ≠ '#' := by
      constructor <;> rintro rfl <;> cases hcword
    have hblank : Text.isBlank c = false := by
      by_contra hb
      rw [Bool.not_eq_false] at hb
      rw [not_isWordChar_of_isBlank hb] at hcword
      cases hcword
    have hlexeme : ∀ lineStart, lexeme lineStart c (rest ++ text) =
        .ok (.identifier, c :: rest, text) := by
      intro lineStart
      rw [List.cons_append] at hspan
      simp only [lexeme, hne.2, hcstart, hspan, ↓reduceIte]
    refine token hblank hne.1 hlexeme (h.mono ?_)
    intro tokens hq t hk ht
    exact hq t hk (by rw [ht, ← hc, String.ofList_toList])

/-- A mark that starts no operator. -/
theorem mark {c : Char} (hc : c ∈ [';', ',', '(', ')', '[', ']', '\x7b', '\x7d'])
    (h : Yields text fun tokens => ∀ t : Token, t.isPunctuation (String.singleton c) →
      Q (t :: tokens)) : Yields (c :: text) Q := by
  have hlength : punctuationLength? (c :: text) = some 1 := by
    simp only [List.mem_cons, List.not_mem_nil, or_false] at hc
    rcases hc with rfl | rfl | rfl | rfl | rfl | rfl | rfl | rfl <;> rfl
  obtain ⟨hslash, hdirective, hpoint, hblank, hword, hdigit⟩ : c ≠ '/' ∧ c ≠ '#' ∧ c ≠ '.' ∧
      Text.isBlank c = false ∧ isWordStart c = false ∧ c.isDigit = false := by
    simp only [List.mem_cons, List.not_mem_nil, or_false] at hc
    rcases hc with rfl | rfl | rfl | rfl | rfl | rfl | rfl | rfl <;> decide
  have hlexeme : ∀ lineStart, lexeme lineStart c text = .ok (.punctuation, [c], text) := by
    intro lineStart
    simp [lexeme, startsNumber, hdirective, hpoint, hword, hdigit, hlength, List.splitAt_eq]
  refine token hblank hslash hlexeme (h.mono ?_)
  intro tokens hq t hk ht
  have hone : t.text = String.singleton c := ht.trans String.singleton_eq_ofList.symm
  exact hq t (by simp [Token.isPunctuation, hk, hone])

end Yields

/-! ## Safe characters -/

/-- White space, and what stands in words, numbers and marks; no slash, which could
start a comment. -/
def isSafe (c : Char) : Bool :=
  Text.isBlank c || isWordChar c || (c != '/' && oneCharPunctuation.contains c)

/-- The character that closes a bracket. -/
def closerOf? (c : Char) : Option Char :=
  if c = '\x7b' then some '\x7d'
  else if c = '(' then some ')'
  else if c = '[' then some ']'
  else none

def isCloser (c : Char) : Bool := c == '\x7d' || c == ')' || c == ']'

def isBracket (c : Char) : Bool := (closerOf? c).isSome || isCloser c

/-- A safe character that is no bracket. -/
def isPlain (c : Char) : Bool := isSafe c && !isBracket c

theorem mem_brackets_of_isBracket {c : Char} (h : isBracket c) :
    c ∈ ['\x7b', '(', '[', '\x7d', ')', ']'] := by
  simp only [isBracket, closerOf?, isCloser, Bool.or_eq_true, beq_iff_eq] at h
  simp only [List.mem_cons, List.not_mem_nil, or_false]
  split at h
  · rename_i hc
    exact .inl hc
  split at h
  · rename_i hc
    exact .inr (.inl hc)
  split at h
  · rename_i hc
    exact .inr (.inr (.inl hc))
  · rcases h with h | (h | h) | h
    · cases h
    · simp [h]
    · simp [h]
    · simp [h]

/-- Every character of a class that has no bracket is no bracket. -/
theorem not_isBracket_of {p : Char → Bool} {c : Char} (hc : p c)
    (hp : ['\x7b', '(', '[', '\x7d', ')', ']'].all (!p ·)) : isBracket c = false := by
  by_contra hb
  rw [Bool.not_eq_false] at hb
  have hno := List.all_eq_true.mp hp c (mem_brackets_of_isBracket hb)
  simp [hc] at hno

theorem spanNumber_not_isBracket (hex : Bool) (previous : Char) (text : List Char) :
    ∀ c ∈ (spanNumber hex previous text).1, isBracket c = false := by
  induction text generalizing previous with
  | nil => simp [spanNumber]
  | cons c text ih =>
    rw [spanNumber]
    split
    · rename_i hc
      have hclass : (c.isAlphanum || c == '.' || c == '+' || c == '-') = true := by
        simp only [Bool.or_eq_true, Bool.and_eq_true] at hc ⊢
        tauto
      intro d hd
      rcases List.mem_cons.mp hd with rfl | hd
      · exact not_isBracket_of (p := fun c => c.isAlphanum || c == '.' || c == '+' || c == '-')
          hclass (by decide)
      · exact ih c d hd
    · simp

/-- An operator has no bracket in it. -/
theorem punctuationLength?_take {text : List Char} {n : Nat}
    (h : punctuationLength? text = some n) :
    (∃ c rest, text = c :: rest ∧ n = 1) ∨ ∀ c ∈ text.take n, isBracket c = false := by
  have hthree : ∀ op ∈ threeCharOperators, op.length = 3 ∧ op.all (!isBracket ·) := by decide
  have htwo : ∀ op ∈ twoCharOperators, op.length = 2 ∧ op.all (!isBracket ·) := by decide
  have hany : ∀ (ops : List (List Char)) (k : Nat),
      (∀ op ∈ ops, op.length = k ∧ op.all (!isBracket ·)) →
        ops.any (·.isPrefixOf text) → ∀ c ∈ text.take k, isBracket c = false := by
    intro ops k hops hfound
    obtain ⟨op, hop, hprefix⟩ := List.any_eq_true.mp hfound
    obtain ⟨rest, rfl⟩ := List.isPrefixOf_iff_prefix.mp hprefix
    obtain ⟨hlength, hnone⟩ := hops op hop
    rw [← hlength, List.take_left]
    simpa using hnone
  unfold punctuationLength? at h
  split at h
  · rename_i hfound
    cases h
    exact .inr (hany _ 3 hthree hfound)
  split at h
  · rename_i hfound
    cases h
    exact .inr (hany _ 2 htwo hfound)
  split at h
  · cases h
  split at h
  · cases h
    exact .inl ⟨_, _, rfl, rfl⟩
  · cases h

theorem punctuationLength?_ne_none {c : Char} (h : oneCharPunctuation.contains c)
    (rest : List Char) : punctuationLength? (c :: rest) ≠ none := by
  unfold punctuationLength?
  split
  · simp
  split
  · simp
  · simpa using h

/-- **A safe character starts a token**: a bracket, or something without one. -/
theorem lexeme_safe {c : Char} (hc : isSafe c) (hblank : Text.isBlank c = false)
    (rest : List Char) : ∃ kind word later,
      (∀ lineStart, lexeme lineStart c rest = .ok (kind, word, later)) ∧
        ((kind = .punctuation ∧ word = [c]) ∨ ∀ d ∈ word, isBracket d = false) := by
  have hdirective : c ≠ '#' := by
    rintro rfl
    revert hc
    decide
  by_cases hword : isWordStart c
  · have hlexeme : ∀ lineStart, lexeme lineStart c rest =
        .ok (.identifier, (c :: rest).span isWordChar) := by
      intro lineStart
      simp only [lexeme, hdirective, hword, ↓reduceIte]
    refine ⟨.identifier, ((c :: rest).span isWordChar).1, ((c :: rest).span isWordChar).2, hlexeme,
      .inr ?_⟩
    intro d hd
    rw [List.span_eq_takeWhile_dropWhile] at hd
    exact not_isBracket_of (List.all_eq_true.mp List.all_takeWhile d hd) (by decide)
  by_cases hnumber : startsNumber (c :: rest)
  · let parts := spanNumber (isHexadecimal (c :: rest)) '\x00' (c :: rest)
    have hlexeme : ∀ lineStart, lexeme lineStart c rest = .ok (.number, parts) := by
      intro lineStart
      simp only [lexeme, hdirective, hword, hnumber, ↓reduceIte, Bool.false_eq_true, parts]
    exact ⟨.number, parts.1, parts.2, hlexeme, .inr (spanNumber_not_isBracket _ _ _)⟩
  · have hmark : oneCharPunctuation.contains c := by
      simp only [isSafe, isWordChar, isWordStart, startsNumber, Char.isAlphanum, hblank,
        Bool.or_eq_true, Bool.and_eq_true, not_or] at hc hword hnumber
      tauto
    cases hn : punctuationLength? (c :: rest) with
    | none => exact absurd hn (punctuationLength?_ne_none hmark rest)
    | some n =>
      refine ⟨.punctuation, (c :: rest).take n, (c :: rest).drop n, ?_, ?_⟩
      · intro lineStart
        simp only [lexeme, hdirective, hword, hnumber, ↓reduceIte, Bool.false_eq_true, hn,
          List.splitAt_eq]
      · rcases punctuationLength?_take hn with ⟨_, _, he, rfl⟩ | hnone
        · exact .inl ⟨rfl, rfl⟩
        · exact .inr hnone

/-! ## Brackets -/

/-- The text closes the open brackets, of which the closing characters are given, innermost
first; nothing but white space follows. -/
def Closes : List Char → List Char → Prop
  | [], text => ∀ c ∈ text, Text.isBlank c
  | _ :: _, [] => False
  | top :: outer, c :: text =>
    match closerOf? c with
    | some closer => Closes (closer :: top :: outer) text
    | none => if isCloser c then c = top ∧ Closes outer text else Closes (top :: outer) text

theorem closes_plain {top : Char} {outer word : List Char} (h : ∀ c ∈ word, isBracket c = false)
    (text : List Char) :
    Closes (top :: outer) (word ++ text) ↔ Closes (top :: outer) text := by
  induction word with
  | nil => rfl
  | cons c word ih =>
    obtain ⟨hc, hword⟩ := List.forall_mem_cons.mp h
    simp only [isBracket, Bool.or_eq_false_iff, Option.isSome_eq_false_iff,
      Option.isNone_iff_eq_none] at hc
    rw [List.cons_append, Closes]
    simp [hc, ih hword]

theorem closes_blank {stack text : List Char} {c : Char} (hc : Text.isBlank c)
    (h : Closes stack (c :: text)) : Closes stack text := by
  cases stack with
  | nil =>
    rw [Closes] at h ⊢
    exact (List.forall_mem_cons.mp h).2
  | cons top outer =>
    have hplain : ∀ d ∈ [c], isBracket d = false := by
      simpa using not_isBracket_of hc (by decide)
    exact (closes_plain hplain text).mp h

/-- The token stands for a bracket as its character does. -/
theorem Token.opens_of_closerOf? {t : Token} {c closer : Char} (hk : t.kind = .punctuation)
    (ht : t.text = String.singleton c) (h : closerOf? c = some closer) :
    t.opens ∧ t.closer = String.singleton closer := by
  simp only [closerOf?] at h
  split at h
  · rename_i hc
    cases h
    subst hc
    exact ⟨by simp [opens, isPunctuation, hk, ht], by simp [Token.closer, ht]⟩
  split at h
  · rename_i hc
    cases h
    subst hc
    exact ⟨by simp [opens, isPunctuation, hk, ht], by simp [Token.closer, ht]⟩
  split at h
  · rename_i hc
    cases h
    subst hc
    exact ⟨by simp [opens, isPunctuation, hk, ht], by simp [Token.closer, ht]⟩
  · cases h

theorem Token.closes_of_isCloser {t : Token} {c : Char} (hk : t.kind = .punctuation)
    (ht : t.text = String.singleton c) (h : isCloser c) : t.closes := by
  simp only [isCloser, Bool.or_eq_true, beq_iff_eq] at h
  rcases h with (rfl | rfl) | rfl <;> simp [closes, isPunctuation, hk, ht]

theorem Token.plain_of_not_isBracket {t : Token} {word : List Char}
    (ht : t.text = String.ofList word) (h : ∀ c ∈ word, isBracket c = false) :
    ¬ t.opens ∧ ¬ t.closes := by
  have hne : ∀ c, isBracket c → t.text ≠ String.singleton c := by
    intro c hc he
    rw [ht, String.singleton_eq_ofList] at he
    have hmem : c ∈ word := by simp [String.ofList_injective he]
    rw [h c hmem] at hc
    cases hc
  simp only [opens, closes, isPunctuation, Bool.or_eq_true, Bool.and_eq_true, beq_iff_eq]
  constructor
  · rintro ((⟨_, he⟩ | ⟨_, he⟩) | ⟨_, he⟩)
    · exact hne '\x7b' rfl he
    · exact hne '(' rfl he
    · exact hne '[' rfl he
  · rintro ((⟨_, he⟩ | ⟨_, he⟩) | ⟨_, he⟩)
    · exact hne '\x7d' rfl he
    · exact hne ')' rfl he
    · exact hne ']' rfl he

/-- The tokens have opened the brackets that are closed by these characters. -/
def Opened (tops : List Token) (stack : List Char) : Prop :=
  tops.map Token.closer = stack.map String.singleton

theorem Opened.cons {tops : List Token} {top : Char} {outer : List Char}
    (h : Opened tops (top :: outer)) :
    ∃ o os, tops = o :: os ∧ o.closer = String.singleton top ∧ Opened os outer := by
  obtain ⟨o, os, rfl, ho, hos⟩ := List.map_eq_cons_iff.mp h
  exact ⟨o, os, rfl, ho, hos⟩

/-- **One token inside brackets**, by its characters: what is open after it, and that it
may be put before tokens which close that. -/
theorem closing_of_closes {kind : TokenKind} {c top : Char} {outer word later : List Char}
    (hword : (kind = .punctuation ∧ word = [c]) ∨ ∀ d ∈ word, isBracket d = false)
    (h : Closes (top :: outer) (word ++ later)) :
    ∃ stack, Closes stack later ∧ ∀ (t : Token) (tokens tops : List Token), t.kind = kind →
      t.text = String.ofList word → Opened tops (top :: outer) →
        (∀ tops', Opened tops' stack → Closing (· = []) tops' tokens) →
          Closing (· = []) tops (t :: tokens) := by
  by_cases hplain : ∀ d ∈ word, isBracket d = false
  · refine ⟨top :: outer, (closes_plain hplain later).mp h, ?_⟩
    intro t tokens tops _ ht hopened hnext
    obtain ⟨o, os, rfl, _⟩ := hopened.cons
    obtain ⟨ho, hc⟩ := Token.plain_of_not_isBracket ht hplain
    exact (closing_plain ho hc).mpr (hnext _ hopened)
  obtain ⟨rfl, rfl⟩ := hword.resolve_right hplain
  rw [List.singleton_append, Closes] at h
  have hbracket : isBracket c := by simpa using hplain
  cases hcloser : closerOf? c with
  | some closer =>
    rw [hcloser] at h
    refine ⟨closer :: top :: outer, h, ?_⟩
    intro t tokens tops hk ht hopened hnext
    obtain ⟨o, os, rfl, _⟩ := hopened.cons
    rw [← String.singleton_eq_ofList] at ht
    obtain ⟨hopens, hself⟩ := Token.opens_of_closerOf? hk ht hcloser
    have hall : Opened (t :: o :: os) (closer :: top :: outer) :=
      congrArg₂ List.cons hself hopened
    exact (closing_opens hopens).mpr (hnext _ hall)
  | none =>
    have hc : isCloser c := by simpa [isBracket, hcloser] using hbracket
    simp only [hcloser, hc, ↓reduceIte] at h
    obtain ⟨rfl, h⟩ := h
    refine ⟨outer, h, ?_⟩
    intro t tokens tops hk ht hopened hnext
    obtain ⟨o, os, rfl, ho, hos⟩ := hopened.cons
    rw [← String.singleton_eq_ofList] at ht
    have hcloses := Token.closes_of_isCloser hk ht hc
    refine (closing_closes hcloses).mpr ⟨Token.closedBy_iff.mpr ⟨hcloses, ?_⟩, hnext os hos⟩
    rw [ht, ho]

/-- **A safe text that closes the open brackets** has tokens that do. -/
theorem yields_closing {stack text : List Char} (hsafe : ∀ c ∈ text, isSafe c)
    (h : Closes stack text) :
    Yields text fun tokens => ∀ tops, Opened tops stack → Closing (· = []) tops tokens := by
  -- a token takes at least one character, so the rest of the text is shorter
  induction hn : text.length using Nat.strongRecOn generalizing stack text with
  | ind n ih =>
    rcases text with _ | ⟨c, rest⟩
    · cases stack with
      | cons top outer => exact absurd h (by simp [Closes])
      | nil =>
        refine .nil ?_
        intro tops hopened
        rw [List.map_eq_nil_iff.mp hopened]
        rfl
    obtain ⟨hc, hrest⟩ := List.forall_mem_cons.mp hsafe
    by_cases hblank : Text.isBlank c
    · exact .blank hblank (ih rest.length (by simp [← hn]) hrest (closes_blank hblank h) rfl)
    · rw [Bool.not_eq_true] at hblank
      cases stack with
      | nil =>
        have hfirst := h c (List.mem_cons_self ..)
        rw [hblank] at hfirst
        cases hfirst
      | cons top outer =>
        obtain ⟨kind, word, later, hlexeme, hword⟩ := lexeme_safe hc hblank rest
        obtain ⟨hsplit, hne⟩ := lexeme_splits (hlexeme true)
        simp only at hsplit hne
        rw [hsplit] at h hn hsafe
        obtain ⟨stack, hclose, hstep⟩ := closing_of_closes hword h
        have hslash : c ≠ '/' := by
          rintro rfl
          revert hc
          decide
        have hshort : later.length < n := by
          have hpos := List.length_pos_iff.mpr hne
          rw [List.length_append] at hn
          omega
        have hlater : ∀ d ∈ later, isSafe d := fun d hd => hsafe d (List.mem_append_right _ hd)
        refine .token hblank hslash hlexeme ((ih _ hshort hlater hclose rfl).mono ?_)
        intro tokens hnext t hk ht tops hopened
        exact hstep t tokens tops hk ht hopened hnext

/-! ## Balanced texts -/

/-- A safe text that leaves the open brackets as they are. -/
structure Balanced (text : List Char) : Prop where
  safe : ∀ c ∈ text, isSafe c
  closes : ∀ top outer more, Closes (top :: outer) more → Closes (top :: outer) (text ++ more)

namespace Balanced

variable {text more : List Char}

theorem of_plain (h : text.all isPlain) : Balanced text := by
  simp only [List.all_eq_true, isPlain, Bool.and_eq_true, Bool.not_eq_true'] at h
  exact ⟨fun c hc => (h c hc).1,
    fun _ _ more hmore => (closes_plain (fun c hc => (h c hc).2) more).mpr hmore⟩

theorem nil : Balanced [] := of_plain rfl

theorem append (h : Balanced text) (hmore : Balanced more) : Balanced (text ++ more) where
  safe := by
    intro c hc
    rcases List.mem_append.mp hc with hc | hc
    · exact h.safe c hc
    · exact hmore.safe c hc
  closes := by
    intro top outer rest hrest
    rw [List.append_assoc]
    exact h.closes _ _ _ (hmore.closes _ _ _ hrest)

theorem parentheses (h : Balanced text) : Balanced ('(' :: (text ++ [')'])) where
  safe := by
    intro c hc
    rcases List.mem_cons.mp hc with rfl | hc
    · decide
    rcases List.mem_append.mp hc with hc | hc
    · exact h.safe c hc
    · rw [List.mem_singleton.mp hc]
      decide
  closes := by
    intro top outer rest hrest
    rw [List.cons_append, List.append_assoc]
    exact h.closes _ _ _ ⟨rfl, hrest⟩

/-- A name is balanced. -/
theorem name {name : String} (h : isName name) : Balanced name.toList := by
  simp only [isName, Bool.and_eq_true, List.all_eq_true] at h
  refine of_plain (List.all_eq_true.mpr ?_)
  intro c hc
  simp [isPlain, isSafe, h.2 c hc, not_isBracket_of (h.2 c hc) (by decide)]

end Balanced

end ShaderGraph.Glsl
