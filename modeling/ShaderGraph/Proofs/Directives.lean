import ShaderGraph.Proofs.Relexing

/-!
Directives. A `#` to which the lexer comes between tokens begins a directive where a line
begins: ahead of all tokens, or behind a newline in the trivia after the token before, be it
inside a comment. Elsewhere the lexer fails there. A directive takes one logical line: it goes
on over a newline behind a backslash, carriage returns between the two aside, and over no other.

The lexer is followed token by token (`Lexer.Gives`). Trivia is passed over as a whole
(`skipTrivia_gap`), so that what the lexer does at a `#` can be told from the gap ahead of it
(`Lexer.step_hash`). The main statement is `directives_are_logical_lines`.
-/

namespace ShaderGraph.Glsl

/-! ## Logical lines -/

/-- The text ends in a backslash with nothing but carriage returns behind it. -/
def Continues (text : List Char) : Prop :=
  ∃ front returns, text = front ++ '\\' :: returns ∧ ∀ c ∈ returns, c = '\r'

/-- A text is one logical line, when `rest` stands behind it: it is followed by a newline or by
nothing, every newline in it is continued, and a newline behind it is not. -/
structure LogicalLine (line rest : List Char) : Prop where
  ends : ∀ c ∈ rest.head?, c = '\n'
  joined : ∀ front back, line = front ++ '\n' :: back → Continues front
  complete : rest ≠ [] → ¬ Continues line

theorem continues_concat {text : List Char} {c : Char} :
    Continues (text ++ [c]) ↔ c = '\\' ∨ c = '\r' ∧ Continues text := by
  constructor
  · rintro ⟨front, returns, htext, hreturns⟩
    rcases List.eq_nil_or_concat returns with rfl | ⟨returns, d, rfl⟩
    · obtain ⟨_, hlast⟩ := List.append_inj' htext rfl
      exact .inl (List.cons.inj hlast).1
    · rw [List.concat_eq_append, ← List.cons_append, ← List.append_assoc] at htext
      obtain ⟨rfl, hd⟩ := List.append_inj' htext rfl
      obtain rfl := (List.cons.inj hd).1
      exact .inr ⟨hreturns c (by simp), front, returns, rfl, fun d hd => hreturns d (by simp [hd])⟩
  · rintro (rfl | ⟨rfl, front, returns, rfl, hreturns⟩)
    · exact ⟨text, [], rfl, by simp⟩
    · refine ⟨front, returns ++ ['\r'], by simp, ?_⟩
      intro d hd
      rcases List.mem_append.mp hd with hd | hd
      · exact hreturns d hd
      · exact List.mem_singleton.mp hd

/-- What the lexer keeps in mind of a line is whether it goes on. -/
theorem goesOn_iff_continues (text : List Char) : goesOn false text = true ↔ Continues text := by
  induction text using List.reverseRecOn with
  | nil => simp [goesOn, Continues]
  | append_singleton text c ih =>
    rw [continues_concat, ← ih]
    simp [goesOn]

/-- The conditions on a logical line, for a line of which the lexer has read a part. -/
theorem spanLogicalLine_eq {continued : Bool} {line rest : List Char}
    (hends : ∀ c ∈ rest.head?, c = '\n')
    (hjoined : ∀ front back, line = front ++ '\n' :: back → goesOn continued front = true)
    (hcomplete : rest ≠ [] → goesOn continued line = false) :
    spanLogicalLine continued (line ++ rest) = (line, rest) := by
  induction line generalizing continued with
  | nil =>
    cases rest with
    | nil => rfl
    | cons c rest =>
      have hc : c = '\n' := hends c rfl
      have hstop : continued = false := hcomplete (by simp)
      simp [spanLogicalLine, hc, hstop]
  | cons c line ih =>
    have hgoes : ¬ (c = '\n' && !continued) = true := by
      simp only [Bool.and_eq_true, decide_eq_true_eq, Bool.not_eq_true', not_and,
        Bool.not_eq_false]
      rintro rfl
      exact hjoined [] line rfl
    have hline : spanLogicalLine (c == '\\' || (c == '\r' && continued)) (line ++ rest) =
        (line, rest) :=
      ih (fun front back heq => hjoined (c :: front) back (by rw [heq]; rfl)) hcomplete
    rw [List.cons_append, spanLogicalLine, if_neg hgoes, hline]

theorem spanLogicalLine_ends (continued : Bool) (text : List Char) :
    ∀ c ∈ (spanLogicalLine continued text).2.head?, c = '\n' := by
  induction text generalizing continued with
  | nil => simp [spanLogicalLine]
  | cons c text ih =>
    rw [spanLogicalLine]
    split
    · rename_i hstop
      simp only [Bool.and_eq_true, decide_eq_true_eq] at hstop
      simp [hstop.1]
    · exact ih _

theorem spanLogicalLine_joined {continued : Bool} {text front back : List Char}
    (h : (spanLogicalLine continued text).1 = front ++ '\n' :: back) :
    goesOn continued front = true := by
  induction text generalizing continued front with
  | nil => simp [spanLogicalLine] at h
  | cons c text ih =>
    rw [spanLogicalLine] at h
    split at h
    · simp at h
    · rename_i hgoes
      cases front with
      | nil =>
        obtain rfl : c = '\n' := (List.cons.inj h).1
        simpa [goesOn] using hgoes
      | cons d front =>
        obtain ⟨rfl, htail⟩ := List.cons.inj h
        have hgoes : goesOn (c == '\\' || (c == '\r' && continued)) front = true := ih htail
        exact hgoes

/-- **A directive takes one logical line**, and there is no other one at the front of a text. -/
theorem spanLogicalLine_eq_iff {text line rest : List Char} :
    spanLogicalLine false text = (line, rest) ↔ text = line ++ rest ∧ LogicalLine line rest := by
  constructor
  · intro h
    have happend := spanLogicalLine_append false text
    have hends := spanLogicalLine_ends false text
    have hlast := goesOn_spanLogicalLine false text
    rw [h] at happend hends hlast
    refine ⟨happend.symm, hends, ?_, ?_⟩
    · intro front back hline
      exact (goesOn_iff_continues front).mp (spanLogicalLine_joined (by rw [h]; exact hline))
    · intro hrest
      rw [← goesOn_iff_continues, Bool.not_eq_true]
      exact hlast hrest
  · rintro ⟨rfl, hline⟩
    refine spanLogicalLine_eq hline.ends ?_ ?_
    · intro front back heq
      exact (goesOn_iff_continues front).mpr (hline.joined front back heq)
    · intro hrest
      rw [← Bool.not_eq_true, goesOn_iff_continues]
      exact hline.complete hrest

/-! ## Trivia as a whole -/

theorem skipTrivia_line {body : List Char} (h : '\n' ∉ body) (l : Location) (text : List Char) :
    skipTrivia .line l (body ++ text) = skipTrivia .line (l.after body) text := by
  induction body generalizing l with
  | nil => rfl
  | cons c body ih =>
    obtain ⟨hc, hbody⟩ : '\n' ≠ c ∧ '\n' ∉ body := by simpa using h
    have hstep : Trivia.line.step l c (body ++ text).head? = some .line := by
      simp [Trivia.step, Ne.symm hc]
    rw [List.cons_append, skipTrivia, hstep]
    exact ih hbody (l.advance c)

theorem skipTrivia_block {body : List Char} (h : ¬ ['*', '/'] <:+: body) (opened l : Location)
    (text : List Char) :
    skipTrivia (.block opened) l (body ++ '*' :: '/' :: text) =
      skipTrivia .between ((l.after body).after ['*', '/']) text := by
  induction body generalizing l with
  | nil => rfl
  | cons c body ih =>
    rw [List.infix_cons_iff, not_or] at h
    obtain ⟨hfront, hbody⟩ := h
    have hopen : ¬ (c = '*' ∧ (body ++ '*' :: '/' :: text).head? = some '/') := by
      rintro ⟨rfl, hslash⟩
      cases body with
      | nil => cases hslash
      | cons d body =>
        cases hslash
        exact hfront (by simp)
    have hstep : (Trivia.block opened).step l c (body ++ '*' :: '/' :: text).head? =
        some (.block opened) := by
      simp only [Trivia.step, Bool.and_eq_true, decide_eq_true_eq, beq_iff_eq, hopen, if_false]
    rw [List.cons_append, skipTrivia, hstep]
    exact ih hbody (l.advance c)

/-- **A gap is passed over** up to a character with which no trivia begins. -/
theorem skipTrivia_gap {c : Char} {rest gap : List Char}
    (hstop : ∀ l, Trivia.between.step l c rest.head? = none) (h : Gap (c :: rest) gap)
    (l : Location) : skipTrivia .between l (gap ++ c :: rest) = .ok (l.after gap, c :: rest) := by
  induction h generalizing l with
  | nothing =>
    rw [List.nil_append, skipTrivia, hstop]
    rfl
  | @blank d gap hblank _ ih =>
    have hstep : Trivia.between.step l d (gap ++ c :: rest).head? = some .between := by
      simp [Trivia.step, hblank]
    rw [List.cons_append, skipTrivia, hstep]
    exact ih (l.advance d)
  | @line body gap hbody hend _ ih =>
    -- the comment ends at a newline, which is trivia between tokens as well
    obtain ⟨more, hmore⟩ : ∃ more, gap ++ c :: rest = '\n' :: more := by
      cases hgap : gap ++ c :: rest with
      | nil => simp at hgap
      | cons d more => exact ⟨more, by rw [hend d (by rw [hgap]; rfl)]⟩
    have hopen : skipTrivia .between l ('/' :: '/' :: (body ++ gap) ++ c :: rest) =
        skipTrivia .line (l.advance '/') (('/' :: body) ++ (gap ++ c :: rest)) := by
      simp [skipTrivia, Trivia.step, Text.isBlank]
    have hslash : '\n' ∉ '/' :: body := by simp [hbody]
    have hline := skipTrivia_line hslash (l.advance '/') (gap ++ c :: rest)
    have hnext := ih (((l.advance '/').advance '/').after body)
    rw [hmore, skipTrivia_newline rfl] at hnext
    rw [hopen, hline, hmore, skipTrivia_newline rfl, Location.after_cons, hnext,
      Location.after_cons, Location.after_cons, Location.after_append]
  | @block body gap hbody _ ih =>
    have hopen : skipTrivia .between l ('/' :: '*' :: (body ++ '*' :: '/' :: gap) ++ c :: rest) =
        skipTrivia (.block l) ((l.advance '/').advance '*')
          (body ++ '*' :: '/' :: (gap ++ c :: rest)) := by
      simp [skipTrivia, Trivia.step, Text.isBlank]
    rw [hopen, skipTrivia_block hbody, ih]
    simp only [Location.after_cons, Location.after_append]
    rfl

/-! ## Token after token -/

namespace Lexer

/-- Tokens that the lexer gives one after the other, and the lexer after them. -/
inductive Gives : Lexer → List Token → Lexer → Prop
  | nothing (lexer : Lexer) : Gives lexer [] lexer
  | token {lexer next later : Lexer} {t : Token} {tokens : List Token} :
      lexer.step = .token t next → Gives next tokens later → Gives lexer (t :: tokens) later

variable {lexer later : Lexer} {tokens : List Token}

/-- What is given first is what is read first. -/
theorem Gives.lexed (h : Gives lexer tokens later) :
    lexer.lexed = ⟨tokens ++ later.lexed.tokens, later.lexed.ending⟩ := by
  induction h with
  | nothing lexer => rfl
  | token hstep _ ih =>
    rw [lexed_eq, hstep]
    simp only [ih, List.cons_append]

theorem Gives.started (h : Gives lexer tokens later) :
    later.started = true ↔ lexer.started = true ∨ tokens ≠ [] := by
  induction h with
  | nothing lexer => simp
  | token hstep _ ih =>
    obtain ⟨_, _, _, _, _, _, _, _, _, rfl⟩ := step_eq_token.mp hstep
    simp [ih]

theorem Gives.isAt {source : List Char} {start : Nat} (h : Gives lexer tokens later)
    (hat : lexer.IsAt source start) : ∃ stop, later.IsAt source stop := by
  induction h generalizing start with
  | nothing lexer => exact ⟨start, hat⟩
  | token hstep _ ih =>
    obtain ⟨_, _, _, _, _, _, _, hnext⟩ := hat.token hstep
    exact ih hnext

/-- The first token that is read is given first. -/
theorem step_of_lexed {t : Token} {rest : List Token} (h : lexer.lexed.tokens = t :: rest) :
    ∃ next, lexer.step = .token t next ∧ next.lexed.tokens = rest := by
  rw [lexed_eq] at h
  cases hstep : lexer.step with
  | token u next =>
    rw [hstep] at h
    cases h
    exact ⟨next, rfl, rfl⟩
  | finished stop => rw [hstep] at h; cases h
  | failed error stop => rw [hstep] at h; cases h

/-- Every token that is read is given at some time. -/
theorem gives_of_lexed {earlier rest : List Token} {t : Token}
    (h : lexer.lexed.tokens = earlier ++ t :: rest) :
    ∃ inner next, Gives lexer earlier inner ∧ inner.step = .token t next := by
  induction earlier generalizing lexer with
  | nil =>
    obtain ⟨next, hstep, _⟩ := step_of_lexed h
    exact ⟨lexer, next, .nothing lexer, hstep⟩
  | cons u earlier ih =>
    obtain ⟨next, hstep, htail⟩ := step_of_lexed h
    obtain ⟨inner, last, hgives, hlast⟩ := ih htail
    exact ⟨inner, last, .token hstep hgives, hlast⟩

/-- An error comes after all tokens. -/
theorem gives_of_error {error : SyntaxError} (h : lexer.lexed.ending.error = some error) :
    ∃ inner stop, Gives lexer lexer.lexed.tokens inner ∧ inner.step = .failed error stop := by
  -- every token shortens the text that is left
  induction hlength : lexer.rest.length using Nat.strong_induction_on generalizing lexer with
  | _ n ih =>
    rw [lexed_eq] at h ⊢
    cases hstep : lexer.step with
    | finished stop => rw [hstep] at h; cases h
    | failed e stop =>
      rw [hstep] at h
      cases h
      exact ⟨lexer, stop, .nothing lexer, hstep⟩
    | token t next =>
      rw [hstep] at h
      obtain ⟨inner, stop, hgives, hfailed⟩ :=
        ih _ (hlength ▸ step_shortens hstep) h rfl
      exact ⟨inner, stop, .token hstep hgives, hfailed⟩

/-! ## At a `#` -/

/-- **What the lexer does at a `#`.** -/
theorem step_hash {gap after : List Char} (hrest : lexer.rest = gap ++ '#' :: after)
    (hgap : Gap ('#' :: after) gap) :
    lexer.step =
      let place := lexer.location.after gap
      let parts := spanLogicalLine false ('#' :: after)
      if lexer.started = false ∨ '\n' ∈ gap then
        .token ⟨.directive, String.ofList parts.1, place⟩ ⟨parts.2, place.after parts.1, true⟩
      else .failed ⟨place, .misplacedDirective⟩ place := by
  have hstop : ∀ l, Trivia.between.step l '#' after.head? = none := by
    intro l
    rw [Trivia.step_between_eq_none]
    exact ⟨by decide, fun h => absurd h.1 (by decide)⟩
  have hline : (!lexer.started || decide (lexer.location.line < (lexer.location.after gap).line)) =
      decide (lexer.started = false ∨ '\n' ∈ gap) := by
    rw [Location.line_after, Bool.eq_iff_iff]
    simp [List.count_pos_iff]
  rw [step, hrest, skipTrivia_gap hstop hgap]
  simp only [lexeme, hline, decide_eq_true_eq, ↓reduceIte]
  split_ifs <;> rfl

end Lexer

/-- The lexer has given `tokens` and read `before`; then, behind a gap, it comes to a `#`. -/
structure ReachesHash (source : String) (tokens : List Token) (before gap text : List Char) :
    Prop where
  given : ∃ lexer, Lexer.Gives { rest := source.toList } tokens lexer ∧ lexer.rest = gap ++ text
  source : source.toList = before ++ gap ++ text
  trivia : Gap text gap
  hash : text.head? = some '#'

/-- Where the lexer stands in its source after some tokens. -/
theorem Lexer.Gives.place {source : String} {tokens : List Token} {lexer : Lexer}
    (h : Gives { rest := source.toList } tokens lexer) :
    ∃ before, source.toList = before ++ lexer.rest ∧ lexer.location = .counted before := by
  have hstart : ({ rest := source.toList } : Lexer).IsAt source.toList 0 :=
    ⟨Nat.zero_le _, rfl, rfl, by simp⟩
  obtain ⟨stop, hat⟩ := h.isAt hstart
  refine ⟨source.toList.take stop, ?_, hat.location⟩
  rw [← hat.rest, List.take_append_drop]

/-- The lexer comes to a `#` where it has passed over all trivia. -/
theorem Lexer.Gives.reachesHash {source : String} {tokens : List Token} {lexer : Lexer}
    {l : Location} {after : List Char} (h : Gives { rest := source.toList } tokens lexer)
    (htrivia : skipTrivia .between lexer.location lexer.rest = .ok (l, '#' :: after)) :
    ∃ before gap, ReachesHash source tokens before gap ('#' :: after) := by
  have hexpects : Trivia.between.Expects lexer.rest := trivial
  obtain ⟨before, hsource, _⟩ := h.place
  obtain ⟨gap, hrest, _, hgap⟩ := skipTrivia_leaves hexpects htrivia
  refine ⟨before, gap, ⟨lexer, h, hrest⟩, ?_, hgap, rfl⟩
  rw [hsource, hrest, List.append_assoc]

theorem lexeme_misplaced {lineStart : Bool} {c : Char} {rest : List Char}
    (h : lexeme lineStart c rest = .error .misplacedDirective) : c = '#' := by
  by_contra hc
  simp only [lexeme, hc, ↓reduceIte] at h
  split_ifs at h
  split at h <;> cases h

/-- At a `#` that is reached, the lexer gives a directive or fails. -/
theorem ReachesHash.outcome {source : String} {tokens : List Token} {before gap text : List Char}
    (h : ReachesHash source tokens before gap text) :
    ∃ line rest, text = line ++ rest ∧ LogicalLine line rest ∧
      if tokens = [] ∨ '\n' ∈ gap then
        tokens ++ [⟨.directive, String.ofList line, .counted (before ++ gap)⟩] <+:
          (lex source).tokens
      else lex source = ⟨tokens, .counted (before ++ gap),
        some ⟨.counted (before ++ gap), .misplacedDirective⟩⟩ := by
  obtain ⟨⟨lexer, hgives, hrest⟩, hsource, hgap, hhash⟩ := h
  obtain ⟨after, rfl⟩ : ∃ after, text = '#' :: after := by
    cases text with
    | nil => cases hhash
    | cons c after => cases hhash; exact ⟨after, rfl⟩
  obtain ⟨before', hbefore, hlocation⟩ := hgives.place
  obtain rfl : before = before' := by
    rw [hbefore, hrest, ← List.append_assoc] at hsource
    exact (List.append_cancel_right (List.append_cancel_right hsource)).symm
  have hplace : lexer.location.after gap = .counted (before ++ gap) := by
    rw [hlocation, Location.after_counted]
  have hfirst : lexer.started = false ↔ tokens = [] := by
    rw [← Bool.not_eq_true, hgives.started]
    simp
  have hlexed : lex source = _ := hgives.lexed
  have hstep := Lexer.step_hash hrest hgap
  simp only [hfirst, hplace] at hstep
  rw [Lexer.lexed_eq, hstep] at hlexed
  obtain ⟨happend, hline⟩ := spanLogicalLine_eq_iff.mp (Prod.eta (spanLogicalLine false _)).symm
  refine ⟨_, _, happend, hline, ?_⟩
  split_ifs at hlexed ⊢ with hstarts
  · rw [hlexed]
    exact (List.prefix_append_right_inj tokens).mpr (by simp)
  · simpa using hlexed

/-- **Directives are logical lines.** Say the lexer comes to a `#` between tokens. If no token
was given before, or if there is a newline in the gap after the last one, then a directive comes
next, and its text is the one logical line that begins at the `#`; otherwise the lexer fails at
the `#`. No directive and no such failure comes about in another way. -/
theorem directives_are_logical_lines (source : String) :
    (∀ tokens before gap text, ReachesHash source tokens before gap text →
      ∃ line rest, text = line ++ rest ∧ LogicalLine line rest ∧
        (∀ other behind, text = other ++ behind → LogicalLine other behind → other = line) ∧
        if tokens = [] ∨ '\n' ∈ gap then
          tokens ++ [⟨.directive, String.ofList line, .counted (before ++ gap)⟩] <+:
            (lex source).tokens
        else lex source = ⟨tokens, .counted (before ++ gap),
          some ⟨.counted (before ++ gap), .misplacedDirective⟩⟩) ∧
    (∀ earlier t later, (lex source).tokens = earlier ++ t :: later → t.kind = .directive →
      ∃ before gap line rest, ReachesHash source earlier before gap (line ++ rest) ∧
        (earlier = [] ∨ '\n' ∈ gap) ∧ LogicalLine line rest ∧
        t = ⟨.directive, String.ofList line, .counted (before ++ gap)⟩) ∧
    ∀ place, (lex source).ending.error = some ⟨place, .misplacedDirective⟩ →
      ∃ before gap text, ReachesHash source (lex source).tokens before gap text ∧
        (lex source).tokens ≠ [] ∧ '\n' ∉ gap ∧ place = .counted (before ++ gap) := by
  refine ⟨?_, ?_, ?_⟩
  · intro tokens before gap text h
    obtain ⟨line, rest, htext, hline, houtcome⟩ := h.outcome
    refine ⟨line, rest, htext, hline, ?_, houtcome⟩
    intro other behind hother hsame
    have hone := spanLogicalLine_eq_iff.mpr ⟨htext, hline⟩
    exact (Prod.mk.inj ((spanLogicalLine_eq_iff.mpr ⟨hother, hsame⟩).symm.trans hone)).1
  · intro earlier t later htokens hkind
    obtain ⟨lexer, next, hgives, hstep⟩ := Lexer.gives_of_lexed htokens
    obtain ⟨l, c, behind, kind, text, _, htrivia, hlexeme, rfl, _⟩ := Lexer.step_eq_token.mp hstep
    obtain rfl : kind = .directive := hkind
    obtain rfl : c = '#' := by
      cases lexeme_eq_ok.mp hlexeme with
      | directive hc _ _ => exact hc
    obtain ⟨before, gap, hreaches⟩ := hgives.reachesHash htrivia
    obtain ⟨line, rest, htext, hline, houtcome⟩ := hreaches.outcome
    rw [htext] at hreaches
    split_ifs at houtcome with hstarts
    · rw [htokens, List.prefix_append_right_inj] at houtcome
      have hsame := (List.cons_prefix_cons.mp houtcome).1
      exact ⟨before, gap, line, rest, hreaches, hstarts, hline, hsame.symm⟩
    · rw [houtcome] at htokens
      simp at htokens
  · intro place herror
    obtain ⟨lexer, stop, hgives, hstep⟩ := Lexer.gives_of_error herror
    rcases Lexer.step_eq_failed hstep with
      ⟨_, _, hcomment⟩ | ⟨l, c, behind, fault, htrivia, hlexeme, hfault⟩
    · cases hcomment
    · cases hfault
      obtain rfl := lexeme_misplaced hlexeme
      obtain ⟨before, gap, hreaches⟩ := hgives.reachesHash htrivia
      obtain ⟨_, _, _, _, houtcome⟩ := hreaches.outcome
      split_ifs at houtcome with hstarts
      · -- all tokens are given already
        have hlength := houtcome.length_le
        rw [List.length_append, List.length_singleton] at hlength
        exact absurd hlength (Nat.not_succ_le_self _)
      · rw [houtcome] at herror
        cases herror
        rw [not_or] at hstarts
        exact ⟨before, gap, _, hreaches, hstarts.1, hstarts.2, rfl⟩

/-- A newline in a comment is enough for a directive, which then goes on over two line ends and
stops at the third; behind a comment without one, a `#` is refused. -/
theorem directives_are_logical_lines_continued :
    (∃ before gap line rest,
      ReachesHash "x /*\n*/#a \\\r\n\\\n\ny" [⟨.identifier, "x", ⟨1, 1⟩⟩] before gap
          (line ++ rest) ∧
        LogicalLine line rest ∧ String.ofList line = "#a \\\r\n\\\n") ∧
      ∃ before gap text, ReachesHash "x /**/ #a" (lex "x /**/ #a").tokens before gap text ∧
        '\n' ∉ gap ∧ Location.counted (before ++ gap) = ⟨1, 8⟩ := by
  constructor
  · obtain ⟨before, gap, line, rest, hreaches, _, hline, htoken⟩ :=
      (directives_are_logical_lines "x /*\n*/#a \\\r\n\\\n\ny").2.1 [⟨.identifier, "x", ⟨1, 1⟩⟩]
        ⟨.directive, "#a \\\r\n\\\n", ⟨2, 3⟩⟩ [⟨.identifier, "y", ⟨5, 1⟩⟩] (by decide +kernel) rfl
    exact ⟨before, gap, line, rest, hreaches, hline, (congrArg Token.text htoken).symm⟩
  · obtain ⟨before, gap, text, hreaches, _, hgap, hplace⟩ :=
      (directives_are_logical_lines "x /**/ #a").2.2 ⟨1, 8⟩ (by decide +kernel)
    exact ⟨before, gap, text, hreaches, hgap, hplace.symm⟩

end ShaderGraph.Glsl
