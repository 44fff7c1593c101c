import ShaderGraph.Proofs.OnDemand
import ShaderGraph.Proofs.Placement

/-!
Tokens on lines of their own. The text of a token, cut out of its source, is read as that one
token (`lexeme_alone`): the lexer looks behind a token only to see that it ends. A newline
behind the text ends it as well, unless the token is a directive whose line goes on, and such a
directive is the last token of its source. So the tokens of a text can be written one below the
other and are read back (`lex_lines`).
-/

namespace ShaderGraph.Glsl

/-! ## Spans -/

theorem span_alone {α : Type} (p : α → Bool) (text : List α) :
    (text.span p).1.span p = ((text.span p).1, []) := by
  have hall : ∀ c ∈ text.takeWhile p, p c := List.all_eq_true.mp List.all_takeWhile
  rw [List.span_eq_takeWhile_dropWhile, List.span_eq_takeWhile_dropWhile,
    List.takeWhile_eq_self_iff.mpr hall, List.dropWhile_eq_nil_iff.mpr hall]

theorem spanNumber_alone (hex : Bool) (previous : Char) (text : List Char) :
    spanNumber hex previous (spanNumber hex previous text).1 =
      ((spanNumber hex previous text).1, []) := by
  induction text generalizing previous with
  | nil => rfl
  | cons c text ih =>
    rw [spanNumber]
    split
    · rename_i hc
      simp only [spanNumber, hc, ↓reduceIte, ih]
    · rfl

theorem spanLogicalLine_alone (continued : Bool) (text : List Char) :
    spanLogicalLine continued (spanLogicalLine continued text).1 =
      ((spanLogicalLine continued text).1, []) := by
  induction text generalizing continued with
  | nil => rfl
  | cons c text ih =>
    rw [spanLogicalLine]
    split
    · rfl
    · rename_i hc
      rw [spanLogicalLine, if_neg hc, ih]

/-- A logical line with something behind it does not go on. -/
theorem goesOn_spanLogicalLine (continued : Bool) (text : List Char)
    (h : (spanLogicalLine continued text).2 ≠ []) :
    goesOn continued (spanLogicalLine continued text).1 = false := by
  induction text generalizing continued with
  | nil => exact absurd rfl h
  | cons c text ih =>
    rw [spanLogicalLine] at h ⊢
    split at h
    · rename_i hc
      rw [if_pos hc]
      simp only [Bool.and_eq_true, Bool.not_eq_true'] at hc
      exact hc.2
    · rename_i hc
      rw [if_neg hc]
      exact ih _ h

/-! ## Numbers and operators -/

theorem isHexadecimal_iff {text : List Char} :
    isHexadecimal text ↔ ['0', 'x'] <+: text ∨ ['0', 'X'] <+: text := by
  constructor
  · intro h
    unfold isHexadecimal at h
    split at h
    · exact .inl (by simp)
    · exact .inr (by simp)
    · cases h
  · rintro (⟨rest, rfl⟩ | ⟨rest, rfl⟩) <;> rfl

/-- Letters and digits at the front of a text belong to the number there. -/
theorem prefix_spanNumber {hex : Bool} {previous : Char} {front text : List Char}
    (hfront : front.all Char.isAlphanum) (h : front <+: text) :
    front <+: (spanNumber hex previous text).1 := by
  obtain ⟨rest, rfl⟩ := h
  induction front generalizing previous with
  | nil => exact List.nil_prefix
  | cons c front ih =>
    obtain ⟨hc, hrest⟩ : c.isAlphanum ∧ front.all Char.isAlphanum := by simpa using hfront
    simp only [List.cons_append, spanNumber, hc, Bool.true_or, ↓reduceIte]
    exact List.cons_prefix_cons.mpr ⟨rfl, ih hrest⟩

theorem isHexadecimal_spanNumber (hex : Bool) (previous : Char) (text : List Char) :
    isHexadecimal (spanNumber hex previous text).1 = isHexadecimal text := by
  have hpart : (spanNumber hex previous text).1 <+: text := ⟨_, spanNumber_append ..⟩
  rw [Bool.eq_iff_iff, isHexadecimal_iff, isHexadecimal_iff]
  constructor
  · rintro (h | h)
    · exact .inl (h.trans hpart)
    · exact .inr (h.trans hpart)
  · rintro (h | h)
    · exact .inl (prefix_spanNumber rfl h)
    · exact .inr (prefix_spanNumber rfl h)

/-- What starts a number does so whatever follows. -/
theorem startsNumber_mono {text more : List Char} (h : text <+: more)
    (hstarts : startsNumber text) : startsNumber more := by
  obtain ⟨rest, rfl⟩ := h
  rcases text with _ | ⟨c, _ | ⟨d, text⟩⟩
  · cases hstarts
  · have hdigit : c.isDigit := by simpa [startsNumber] using hstarts
    simp [startsNumber, hdigit]
  · exact hstarts

theorem startsNumber_spanNumber (hex : Bool) (previous : Char) {text : List Char}
    (h : startsNumber text) : startsNumber (spanNumber hex previous text).1 := by
  -- the digit that decides is the first or the second character
  have hdigit : ∀ {d : Char}, d.isDigit → d.isAlphanum := by
    intro d hd
    simp [Char.isAlphanum, hd]
  rcases text with _ | ⟨c, text⟩
  · cases h
  simp only [startsNumber, Bool.or_eq_true, Bool.and_eq_true, beq_iff_eq] at h
  rcases h with hc | ⟨rfl, hnext⟩
  · have hfront : [c] <+: (spanNumber hex previous (c :: text)).1 :=
      prefix_spanNumber (by simpa using hdigit hc) (by simp)
    exact startsNumber_mono hfront (by simp [startsNumber, hc])
  · rcases text with _ | ⟨d, text⟩
    · cases hnext
    have hd : d.isDigit := by simpa using hnext
    have hnumber : (spanNumber hex previous ('.' :: d :: text)).1 =
        '.' :: (spanNumber hex '.' (d :: text)).1 := by
      simp [spanNumber]
    rw [hnumber]
    have hfront : [d] <+: (spanNumber hex '.' (d :: text)).1 :=
      prefix_spanNumber (by simpa using hdigit hd) (by simp)
    refine startsNumber_mono (List.cons_prefix_cons.mpr ⟨rfl, hfront⟩) ?_
    simp [startsNumber, hd]

theorem isPrefixOf_take {op : List Char} {n : Nat} (h : op.length ≤ n) (text : List Char) :
    op.isPrefixOf (text.take n) = op.isPrefixOf text := by
  rw [Bool.eq_iff_iff, List.isPrefixOf_iff_prefix, List.isPrefixOf_iff_prefix,
    List.prefix_take_iff]
  exact and_iff_left h

/-- **An operator alone** is found with its length. -/
theorem punctuationLength?_alone {text : List Char} {n : Nat}
    (h : punctuationLength? text = some n) : punctuationLength? (text.take n) = some n := by
  have hthree : ∀ op ∈ threeCharOperators, op.length = 3 := by decide
  have htwo : ∀ op ∈ twoCharOperators, op.length = 2 := by decide
  have hkept : ∀ ops : List (List Char), (∀ op ∈ ops, op.length = n) →
      ops.any (·.isPrefixOf text) → ops.any (·.isPrefixOf (text.take n)) := by
    intro ops hops hfound
    obtain ⟨op, hop, hfront⟩ := List.any_eq_true.mp hfound
    refine List.any_eq_true.mpr ⟨op, hop, ?_⟩
    rwa [isPrefixOf_take (hops op hop).le]
  have hnone : ∀ ops : List (List Char), ¬ ops.any (·.isPrefixOf text) →
      ¬ ops.any (·.isPrefixOf (text.take n)) := by
    intro ops hno hfound
    obtain ⟨op, hop, hfront⟩ := List.any_eq_true.mp hfound
    refine hno (List.any_eq_true.mpr ⟨op, hop, ?_⟩)
    rw [List.isPrefixOf_iff_prefix] at hfront ⊢
    exact hfront.trans (List.take_prefix n text)
  unfold punctuationLength? at h
  split at h
  · rename_i hfound
    cases h
    rw [punctuationLength?.eq_def, if_pos (hkept _ hthree hfound)]
  rename_i hno
  split at h
  · rename_i hfound
    cases h
    rw [punctuationLength?.eq_def, if_neg (hnone _ hno), if_pos (hkept _ htwo hfound)]
  rename_i hno'
  split at h
  · cases h
  split at h
  · rename_i c rest hmark
    cases h
    rw [punctuationLength?.eq_def, if_neg (hnone _ hno), if_neg (hnone _ hno')]
    exact if_pos hmark
  · cases h

/-! ## One token -/

/-- The rules for the token at the front of a text that starts with `c`: which one applies,
and what it takes off the front. -/
inductive Lexeme (lineStart : Bool) (c : Char) (rest : List Char) :
    TokenKind → List Char × List Char → Prop
  | directive {parts : List Char × List Char} : c = '#' → lineStart →
      spanLogicalLine false (c :: rest) = parts → Lexeme lineStart c rest .directive parts
  | identifier {parts : List Char × List Char} : c ≠ '#' → isWordStart c →
      (c :: rest).span isWordChar = parts → Lexeme lineStart c rest .identifier parts
  | number {parts : List Char × List Char} : c ≠ '#' → ¬ isWordStart c →
      startsNumber (c :: rest) →
      spanNumber (isHexadecimal (c :: rest)) '\x00' (c :: rest) = parts →
      Lexeme lineStart c rest .number parts
  | punctuation {n : Nat} : c ≠ '#' → ¬ isWordStart c → ¬ startsNumber (c :: rest) →
      punctuationLength? (c :: rest) = some n →
      Lexeme lineStart c rest .punctuation ((c :: rest).take n, (c :: rest).drop n)

theorem lexeme_eq_ok {lineStart : Bool} {c : Char} {rest : List Char} {kind : TokenKind}
    {parts : List Char × List Char} :
    lexeme lineStart c rest = .ok (kind, parts) ↔ Lexeme lineStart c rest kind parts := by
  unfold lexeme
  constructor
  · intro h
    simp only at h
    split at h
    · rename_i hc
      split at h
      · rename_i hline
        cases h
        exact .directive hc hline rfl
      · cases h
    rename_i hc
    split at h
    · rename_i hword
      cases h
      exact .identifier hc hword rfl
    rename_i hword
    split at h
    · rename_i hnumber
      cases h
      exact .number hc hword hnumber rfl
    rename_i hnumber
    split at h
    · rename_i n hn
      cases h
      rw [List.splitAt_eq]
      exact .punctuation hc hword hnumber hn
    · cases h
  · intro h
    cases h with
    | directive hc hline hparts => simp only [hc, hline, ↓reduceIte, ← hparts]
    | identifier hc hword hparts => simp only [hc, hword, ↓reduceIte, ← hparts]
    | number hc hword hnumber hparts =>
      simp only [hc, hword, hnumber, ↓reduceIte, Bool.false_eq_true, ← hparts]
    | punctuation hc hword hnumber hn =>
      simp only [hc, hword, hnumber, ↓reduceIte, Bool.false_eq_true, hn, List.splitAt_eq]

/-- **A lexeme alone.** The text of a token is read as that token and nothing else. -/
theorem lexeme_alone {lineStart : Bool} {c : Char} {rest tail later : List Char}
    {kind : TokenKind} (h : lexeme lineStart c rest = .ok (kind, c :: tail, later)) :
    lexeme true c tail = .ok (kind, c :: tail, []) := by
  have hpart : c :: tail <+: c :: rest := ⟨later, (lexeme_splits h).1.symm⟩
  rw [lexeme_eq_ok] at h ⊢
  generalize hparts : (c :: tail, later) = parts at h
  cases h with
  | directive hc _ hline =>
    have halone := spanLogicalLine_alone false (c :: rest)
    rw [hline, ← hparts] at halone
    exact .directive hc rfl halone
  | identifier hc hword hspan =>
    have halone := span_alone isWordChar (c :: rest)
    rw [hspan, ← hparts] at halone
    exact .identifier hc hword halone
  | number hc hword hnumber hspan =>
    have halone := spanNumber_alone (isHexadecimal (c :: rest)) '\x00' (c :: rest)
    have hstarts := startsNumber_spanNumber (isHexadecimal (c :: rest)) '\x00' hnumber
    have hhex := isHexadecimal_spanNumber (isHexadecimal (c :: rest)) '\x00' (c :: rest)
    rw [hspan, ← hparts] at halone hstarts hhex
    exact .number hc hword hstarts (hhex ▸ halone)
  | @punctuation n hc hword hnumber hn =>
    obtain ⟨htake, rfl⟩ := Prod.mk.inj hparts
    have halone := punctuationLength?_alone hn
    have hle := punctuationLength?_le hn
    rw [← htake] at halone
    have hlength : (c :: tail).length = n := by
      rw [htake, List.length_take, Nat.min_eq_left hle]
    have hself : ((c :: tail).take n, (c :: tail).drop n) = (c :: tail, []) := by
      rw [List.take_of_length_le hlength.le, List.drop_of_length_le hlength.le]
    rw [← hself]
    exact .punctuation hc hword (fun hs => hnumber (startsNumber_mono hpart hs)) halone

/-- A directive with something behind it does not go on. -/
theorem goesOn_of_lexeme {lineStart : Bool} {c : Char} {rest text later : List Char}
    {kind : TokenKind} (h : lexeme lineStart c rest = .ok (kind, text, later)) (hc : c = '#')
    (hlater : later ≠ []) : goesOn false text = false := by
  rw [lexeme_eq_ok] at h
  generalize hparts : (text, later) = parts at h
  cases h with
  | directive _ _ hline =>
    have hends := goesOn_spanLogicalLine false (c :: rest)
    rw [hline, ← hparts] at hends
    exact hends hlater
  | identifier hno _ _ => exact absurd hc hno
  | number hno _ _ _ => exact absurd hc hno
  | punctuation hno _ _ _ => exact absurd hc hno

/-- No comment or white space begins where a token alone begins. -/
theorem Trivia.step_alone {l : Location} {c : Char} {tail later : List Char}
    (h : between.step l c (tail ++ later).head? = none) (l' : Location) :
    between.step l' c tail.head? = none := by
  rw [step_between_eq_none] at h ⊢
  cases tail with
  | cons d tail => exact h
  | nil => exact ⟨h.1, by simp⟩

namespace Lexer

variable {lexer : Lexer} {tokens : List Token}

/-- A text whose first character begins a token that takes all of it. -/
structure OneToken (kind : TokenKind) (c : Char) (tail : List Char) : Prop where
  starts : ∀ l, Trivia.between.step l c tail.head? = none
  takes : lexeme true c tail = .ok (kind, c :: tail, [])

theorem OneToken.reads {kind : TokenKind} {c : Char} {tail : List Char}
    (h : OneToken kind c tail) :
    Reads { rest := c :: tail } [⟨kind, String.ofList (c :: tail), .start⟩] := by
  have htrivia : skipTrivia .between .start (c :: tail) = .ok (.start, c :: tail) := by
    rw [skipTrivia, h.starts]
  exact .token (step_eq_token.mpr ⟨_, c, tail, kind, c :: tail, [], htrivia, h.takes, rfl, rfl⟩)
    (.nil rfl)

/-- **A token on a line of its own**, with other lines below. -/
theorem OneToken.reads_newline {kind : TokenKind} {c : Char} {tail below : List Char}
    (h : OneToken kind c tail) (hgoes : c = '#' → goesOn false (c :: tail) = false)
    (hbelow : Reads { rest := below } tokens) :
    ∃ k, Reads { rest := c :: tail ++ '\n' :: below }
      (⟨kind, String.ofList (c :: tail), .start⟩ ::
        tokens.map (Token.moved (Location.down k))) := by
  have hx : Boundary ('\n' :: below) := boundary_cons below (by decide)
  have htrivia : skipTrivia .between .start (c :: tail ++ '\n' :: below) =
      .ok (.start, c :: (tail ++ '\n' :: below)) := by
    rw [List.cons_append, skipTrivia, Trivia.step_append hx, h.starts]
  have hstep : Lexer.step { rest := c :: tail ++ '\n' :: below } =
      .token ⟨kind, String.ofList (c :: tail), .start⟩
        ⟨'\n' :: below, Location.start.after (c :: tail), true⟩ :=
    step_eq_token.mpr ⟨_, c, tail ++ '\n' :: below, kind, c :: tail, '\n' :: below, htrivia,
      lexeme_newline hgoes h.takes below, rfl, rfl⟩
  -- what is left begins with the newline, so that it is read as a text below an empty one
  have hnil : Reads ⟨[], Location.start.after (c :: tail), true⟩ [] := .nil rfl
  have hlexed := hnil.lexed_newline (u := []) rfl (List.suffix_refl []) below
  simp only [List.nil_append] at hlexed
  obtain ⟨herror, rfl⟩ := reads_iff_lexed.mp hbelow
  refine ⟨(Location.start.after (c :: tail)).line, .token hstep (reads_iff_lexed.mpr ?_)⟩
  rw [hlexed]
  exact ⟨by simp [Lexed.moved, Ending.moved, herror], rfl⟩

/-- The token that a step gives is one token alone. If it is a directive and there are tokens
behind it, then its line does not go on. -/
theorem oneToken_of_step {next : Lexer} {t : Token} (h : lexer.step = .token t next) :
    ∃ c tail, t.text = String.ofList (c :: tail) ∧ OneToken t.kind c tail ∧
      (c = '#' → next.rest ≠ [] → goesOn false (c :: tail) = false) := by
  obtain ⟨l, c, rest, kind, text, later, htrivia, hlexeme, rfl, rfl⟩ := step_eq_token.mp h
  obtain ⟨hsplit, hne⟩ : c :: rest = text ++ later ∧ text ≠ [] := lexeme_splits hlexeme
  obtain ⟨_, tail, rfl⟩ := List.exists_cons_of_ne_nil hne
  obtain ⟨rfl, rfl⟩ := List.cons.inj hsplit
  exact ⟨c, tail, rfl, ⟨Trivia.step_alone (skipTrivia_stop htrivia), lexeme_alone hlexeme⟩,
    goesOn_of_lexeme hlexeme⟩

theorem toList_lines (t u : Token) (tokens : List Token) :
    ("\n".intercalate ((t :: u :: tokens).map Token.text)).toList =
      t.text.toList ++ '\n' :: ("\n".intercalate ((u :: tokens).map Token.text)).toList := by
  simp [String.toList_intercalate]

/-- **The tokens of a text on lines of their own** are read back. -/
theorem Reads.lines (h : Reads lexer tokens) :
    ∃ tokens', Reads { rest := ("\n".intercalate (tokens.map Token.text)).toList } tokens' ∧
      tokens'.map Token.lexeme = tokens.map Token.lexeme := by
  induction h with
  | finished _ => exact ⟨[], .nil (by simp), rfl⟩
  | @token lexer next t tokens hstep hreads ih =>
    obtain ⟨c, tail, htext, hone, hgoes⟩ := oneToken_of_step hstep
    have hlist : t.text.toList = c :: tail := by rw [htext, String.toList_ofList]
    cases tokens with
    | nil =>
      have halone : ("\n".intercalate ([t].map Token.text)).toList = c :: tail := by simp [hlist]
      rw [halone]
      exact ⟨_, hone.reads, by simp [Token.lexeme, htext]⟩
    | cons u tokens =>
      have hnext : next.rest ≠ [] := by
        intro hnil
        cases hreads.of_blank (by simp [hnil])
      obtain ⟨below, hbelow, hsame⟩ := ih
      obtain ⟨k, hlines⟩ := hone.reads_newline (fun hc => hgoes hc hnext) hbelow
      rw [toList_lines, hlist]
      refine ⟨_, hlines, ?_⟩
      have hmoved : (below.map (Token.moved (Location.down k))).map Token.lexeme =
          below.map Token.lexeme := by
        rw [List.map_map]
        rfl
      rw [List.map_cons, hmoved, hsame, Token.lexeme, ← htext]
      rfl

end Lexer

/-- **Tokens are read back from lines of their own.** If a text is read to its end, then the
texts of its tokens, one on each line, are read to their end too, as tokens of the same
kinds and texts in the same order. -/
theorem lex_lines (source : String) (h : (lex source).ending.error = none) :
    (lex ("\n".intercalate ((lex source).tokens.map Token.text))).ending.error = none ∧
      (lex ("\n".intercalate ((lex source).tokens.map Token.text))).tokens.map Token.lexeme =
        (lex source).tokens.map Token.lexeme := by
  obtain ⟨tokens, hreads, hsame⟩ := (reads_iff_lex.mpr ⟨h, rfl⟩).lines
  obtain ⟨herror, rfl⟩ := reads_iff_lex.mp hreads
  exact ⟨herror, hsame⟩

/-- A directive over two lines and one that goes on at the end, with numbers, points and slashes
between them that a space or a comment keeps apart. -/
theorem lex_lines_packed :
    let source := "#a \\\r\n b\r\n1e+5-0x1e+2 .5. x/ /=* //c\n/**/#z\\\r"
    let lines := "\n".intercalate ((lex source).tokens.map Token.text)
    (lex source).ending.error = none ∧ (lex lines).ending.error = none ∧
      (lex lines).tokens.map Token.text =
        ["#a \\\r\n b\r", "1e+5", "-", "0x1e", "+", "2", ".5.", "x", "/", "/=", "*", "#z\\\r"] := by
  intro source lines
  have herror : (lex source).ending.error = none := by decide +kernel
  have hsource : (lex source).tokens.map Token.text =
      ["#a \\\r\n b\r", "1e+5", "-", "0x1e", "+", "2", ".5.", "x", "/", "/=", "*", "#z\\\r"] := by
    decide +kernel
  have hlines : lines = "\n".intercalate ((lex source).tokens.map Token.text) := rfl
  have hback := lex_lines source herror
  rw [← hlines] at hback
  have htext : Prod.snd ∘ Token.lexeme = Token.text := rfl
  have htexts := congrArg (List.map Prod.snd) hback.2
  rw [List.map_map, List.map_map, htext, hsource] at htexts
  exact ⟨herror, hback.1, htexts⟩

end ShaderGraph.Glsl
