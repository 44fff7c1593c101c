import ShaderGraph.Proofs.Splicing

/-!
Where tokens stand. Every character of a text belongs to a token or to the trivia ahead
of one: white space, a comment up to the end of its line, or a comment that is closed
(`Gap`). The place that a token or an error carries is the one that counting lines and
characters gives, and so is the place of the lexer after each token.

The lexer is taken here as it is used, for one token after the other; `TokenStream` keeps
whether it has failed. The main statement is `lex_accounts`.
-/

namespace ShaderGraph.Glsl

/-! ## Places -/

/-- The place after a text: how many lines it begins, and how far its last line goes. -/
def Location.counted (text : List Char) : Location :=
  ⟨1 + text.count '\n', 1 + (text.reverse.takeWhile (· ≠ '\n')).length⟩

theorem Location.counted_append_singleton (text : List Char) (c : Char) :
    counted (text ++ [c]) = (counted text).advance c := by
  by_cases hc : c = '\n'
  · subst hc
    simp [counted, advance, Nat.add_assoc]
  · simp [counted, advance, hc, Nat.add_comm]

/-- **Going from character to character counts.** -/
theorem Location.after_counted (text more : List Char) :
    (counted text).after more = counted (text ++ more) := by
  induction more generalizing text with
  | nil => rw [List.append_nil]; rfl
  | cons c more ih => rw [after_cons, ← counted_append_singleton, ih, List.append_assoc]; rfl

/-! ## Trivia -/

/-- What the lexer passes over ahead of `rest`. -/
inductive Gap (rest : List Char) : List Char → Prop
  | nothing : Gap rest []
  | blank {c : Char} {gap : List Char} : Text.isBlank c → Gap rest gap → Gap rest (c :: gap)
  | line {body gap : List Char} :
      '\n' ∉ body → (∀ c ∈ (gap ++ rest).head?, c = '\n') → Gap rest gap →
      Gap rest ('/' :: '/' :: (body ++ gap))
  | block {body gap : List Char} :
      ¬ ['*', '/'] <:+: body → Gap rest gap →
      Gap rest ('/' :: '*' :: (body ++ '*' :: '/' :: gap))

namespace Trivia

/-- The character that is known to come next inside an opening or closing mark. -/
def Expects (text : List Char) : Trivia → Prop
  | opening _ => text.head? = some '*'
  | closing => text.head? = some '/'
  | _ => True

/-- What is still to be passed over ahead of `rest`: the remainder of a comment, and
the trivia after it. -/
def Leaves (rest front : List Char) : Trivia → Prop
  | between => Gap rest front
  | line => ∃ body gap, front = body ++ gap ∧ '\n' ∉ body ∧
      (∀ c ∈ (gap ++ rest).head?, c = '\n') ∧ Gap rest gap
  | opening _ => ∃ body gap, front = '*' :: (body ++ '*' :: '/' :: gap) ∧
      ¬ ['*', '/'] <:+: body ∧ Gap rest gap
  | block _ => ∃ body gap, front = body ++ '*' :: '/' :: gap ∧
      ¬ ['*', '/'] <:+: body ∧ Gap rest gap
  | closing => ∃ gap, front = '/' :: gap ∧ Gap rest gap

/-- A comment that is not closed in the text. -/
def StaysOpen (text : List Char) : Trivia → Prop
  | opening _ => ∃ body, text = '*' :: body ∧ ¬ ['*', '/'] <:+: body
  | block _ => ¬ ['*', '/'] <:+: text
  | _ => False

variable {mode next : Trivia} {l : Location} {c : Char}

/-- What a character does between tokens. -/
theorem step_between {follows : Option Char} (h : between.step l c follows = some next) :
    Text.isBlank c ∧ next = between ∨
      c = '/' ∧ follows = some '/' ∧ next = line ∨
      c = '/' ∧ follows = some '*' ∧ next = opening l := by
  simp only [step] at h
  split_ifs at h with hblank hline hblock
  · cases h
    exact .inl ⟨hblank, rfl⟩
  · cases h
    simp only [Bool.and_eq_true, decide_eq_true_eq, beq_iff_eq] at hline
    exact .inr (.inl ⟨hline.1, hline.2, rfl⟩)
  · cases h
    simp only [Bool.and_eq_true, decide_eq_true_eq, beq_iff_eq] at hblock
    exact .inr (.inr ⟨hblock.1, hblock.2, rfl⟩)

/-- What a character does inside a comment between marks. -/
theorem step_block {opened : Location} {follows : Option Char}
    (h : (block opened).step l c follows = some next) :
    c = '*' ∧ follows = some '/' ∧ next = closing ∨
      ¬ (c = '*' ∧ follows = some '/') ∧ next = block opened := by
  simp only [step, Option.some.injEq] at h
  split_ifs at h with hclose
  · simp only [Bool.and_eq_true, decide_eq_true_eq, beq_iff_eq] at hclose
    exact .inl ⟨hclose.1, hclose.2, h.symm⟩
  · simp only [Bool.and_eq_true, decide_eq_true_eq, beq_iff_eq] at hclose
    exact .inr ⟨hclose, h.symm⟩

/-- Only between tokens does a character end the trivia. -/
theorem eq_between_of_step {follows : Option Char} (h : mode.step l c follows = none) :
    mode = between := by
  cases mode with
  | between => rfl
  | line => cases h
  | opening opened => cases h
  | block opened => cases h
  | closing => cases h

/-- A mark closes a comment only where both its characters stand. -/
theorem closes_cons {body : List Char} (hbody : ¬ ['*', '/'] <:+: body)
    (hc : ¬ (c = '*' ∧ body.head? = some '/')) : ¬ ['*', '/'] <:+: c :: body := by
  rw [List.infix_cons_iff, not_or]
  refine ⟨?_, hbody⟩
  intro hfront
  obtain ⟨rfl, hslash⟩ := List.cons_prefix_cons.mp hfront
  refine hc ⟨rfl, ?_⟩
  cases body with
  | nil => simp at hslash
  | cons d body => rw [(List.cons_prefix_cons.mp hslash).1]; rfl

theorem expects_of_step {text : List Char} (h : mode.step l c text.head? = some next) :
    next.Expects text := by
  cases mode with
  | between =>
    rcases step_between h with ⟨_, rfl⟩ | ⟨_, _, rfl⟩ | ⟨_, hstar, rfl⟩
    · trivial
    · trivial
    · exact hstar
  | line => simp only [step, Option.some.injEq] at h; subst h; split <;> trivial
  | opening opened => cases h; trivial
  | block opened =>
    rcases step_block h with ⟨_, hslash, rfl⟩ | ⟨_, rfl⟩
    · exact hslash
    · trivial
  | closing => cases h; trivial

/-- **One character more.** -/
theorem Leaves.cons {rest front : List Char} (h : next.Leaves rest front)
    (hexpects : mode.Expects (c :: (front ++ rest)))
    (hstep : mode.step l c (front ++ rest).head? = some next) : mode.Leaves rest (c :: front) := by
  cases mode with
  | between =>
    rcases step_between hstep with ⟨hblank, rfl⟩ | ⟨rfl, hslash, rfl⟩ | ⟨rfl, hstar, rfl⟩
    · exact .blank hblank h
    · -- the second slash begins the comment's remainder, which is therefore not empty
      obtain ⟨body, gap, rfl, hbody, hend, hgap⟩ := h
      cases body with
      | nil =>
        have hnewline := hend '/' hslash
        cases hnewline
      | cons d body =>
        cases hslash
        exact .line (fun hmem => hbody (List.mem_cons_of_mem _ hmem)) hend hgap
    · obtain ⟨body, gap, rfl, hbody, hgap⟩ := h
      exact .block hbody hgap
  | line =>
    simp only [step, Option.some.injEq] at hstep
    split_ifs at hstep with hc
    · subst hc hstep
      exact ⟨[], '\n' :: front, rfl, by simp, by simp, .blank (by decide) h⟩
    · subst hstep
      obtain ⟨body, gap, rfl, hbody, hend, hgap⟩ := h
      exact ⟨c :: body, gap, rfl, by simp [Ne.symm hc, hbody], hend, hgap⟩
  | opening opened =>
    cases hstep
    cases hexpects
    obtain ⟨body, gap, rfl, hbody, hgap⟩ := h
    exact ⟨body, gap, rfl, hbody, hgap⟩
  | block opened =>
    rcases step_block hstep with ⟨rfl, _, rfl⟩ | ⟨hopen, rfl⟩
    · obtain ⟨gap, rfl, hgap⟩ := h
      exact ⟨[], gap, rfl, by simp, hgap⟩
    · obtain ⟨body, gap, rfl, hbody, hgap⟩ := h
      refine ⟨c :: body, gap, rfl, closes_cons hbody ?_, hgap⟩
      rintro ⟨rfl, hslash⟩
      refine hopen ⟨rfl, ?_⟩
      cases body with
      | nil => cases hslash
      | cons d body => exact hslash
  | closing =>
    cases hstep
    cases hexpects
    exact ⟨front, rfl, h⟩

end Trivia

section Skipping

variable {mode : Trivia} {l : Location} {text : List Char}

/-- **Only trivia is passed over**, whatever it begins with. -/
theorem skipTrivia_leaves {l' : Location} {rest : List Char} (hexpects : mode.Expects text)
    (h : skipTrivia mode l text = .ok (l', rest)) :
    ∃ front, text = front ++ rest ∧ l' = l.after front ∧ mode.Leaves rest front := by
  induction text generalizing mode l with
  | nil =>
    obtain ⟨hclosed, rfl⟩ := skipTrivia_nil h
    rw [skipTrivia, hclosed] at h
    cases h
    refine ⟨[], rfl, rfl, ?_⟩
    cases mode with
    | between => exact .nothing
    | line => exact ⟨[], [], rfl, by simp, by simp, .nothing⟩
    | opening opened => cases hclosed
    | block opened => cases hclosed
    | closing => cases hexpects
  | cons c text ih =>
    rw [skipTrivia] at h
    cases hstep : mode.step l c text.head? with
    | some next =>
      rw [hstep] at h
      obtain ⟨front, rfl, rfl, hleaves⟩ := ih (Trivia.expects_of_step hstep) h
      exact ⟨c :: front, rfl, rfl, hleaves.cons hexpects hstep⟩
    | none =>
      rw [hstep] at h
      cases h
      cases Trivia.eq_between_of_step hstep
      exact ⟨[], rfl, rfl, .nothing⟩

/-- Where trivia ends, no more of it begins. -/
theorem skipTrivia_stop {l' : Location} {c : Char} {rest : List Char}
    (h : skipTrivia mode l text = .ok (l', c :: rest)) :
    Trivia.between.step l' c rest.head? = none := by
  induction text generalizing mode l with
  | nil => cases (skipTrivia_nil h).2
  | cons d text ih =>
    rw [skipTrivia] at h
    cases hstep : mode.step l d text.head? with
    | some next =>
      rw [hstep] at h
      exact ih h
    | none =>
      rw [hstep] at h
      cases h
      cases Trivia.eq_between_of_step hstep
      exact hstep

/-- **A comment that is not closed** opens after other trivia, or was open before. -/
theorem skipTrivia_unclosed {opened stop : Location} (hexpects : mode.Expects text)
    (h : skipTrivia mode l text = .error (opened, stop)) :
    (∃ front body, text = front ++ '/' :: '*' :: body ∧ opened = l.after front ∧
        mode.Leaves ('/' :: '*' :: body) front ∧ ¬ ['*', '/'] <:+: body) ∨
      mode.unclosed? = some opened ∧ mode.StaysOpen text := by
  induction text generalizing mode l with
  | nil =>
    rw [skipTrivia] at h
    cases hopen : mode.unclosed? with
    | none => rw [hopen] at h; cases h
    | some place =>
      rw [hopen] at h
      cases h
      refine .inr ⟨rfl, ?_⟩
      cases mode with
      | opening opened => cases hexpects
      | block opened => simp [Trivia.StaysOpen]
      | between => cases hopen
      | line => cases hopen
      | closing => cases hopen
  | cons c text ih =>
    rw [skipTrivia] at h
    cases hstep : mode.step l c text.head? with
    | none => rw [hstep] at h; cases h
    | some next =>
      rw [hstep] at h
      rcases ih (Trivia.expects_of_step hstep) h with
        ⟨front, body, rfl, rfl, hleaves, hbody⟩ | ⟨hopen, hstays⟩
      · exact .inl ⟨c :: front, body, rfl, rfl, hleaves.cons hexpects hstep, hbody⟩
      · cases mode with
        | between =>
          rcases Trivia.step_between hstep with ⟨_, rfl⟩ | ⟨_, _, rfl⟩ | ⟨rfl, _, rfl⟩
          · cases hopen
          · cases hopen
          · cases hopen
            obtain ⟨body, rfl, hbody⟩ := hstays
            exact .inl ⟨[], body, rfl, rfl, .nothing, hbody⟩
        | line =>
          simp only [Trivia.step, Option.some.injEq] at hstep
          subst hstep
          split_ifs at hopen <;> cases hopen
        | opening place =>
          cases hstep
          cases hexpects
          exact .inr ⟨hopen, text, rfl, hstays⟩
        | block place =>
          rcases Trivia.step_block hstep with ⟨_, _, rfl⟩ | ⟨hno, rfl⟩
          · cases hopen
          · exact .inr ⟨hopen, Trivia.closes_cons hstays hno⟩
        | closing =>
          cases hstep
          cases hopen

end Skipping

/-! ## One token after the other -/

/-- A lexer in use, and whether it has failed. -/
structure TokenStream where
  lexer : Lexer
  failed : Bool := false

namespace TokenStream

/-- The stream of a whole text. -/
def of (source : String) : TokenStream := { lexer := { rest := source.toList } }

/-- The place that the stream has come to. -/
def location (stream : TokenStream) : Location := stream.lexer.location

/-- The next token, or an error. A stream gives one error and then nothing more, and
nothing at the end of the text. -/
def next (stream : TokenStream) : Option (Except SyntaxError Token) × TokenStream :=
  if stream.failed then (none, stream)
  else
    match stream.lexer.step with
    | .token t next => (some (.ok t), { lexer := next })
    | .finished stop => (none, { lexer := { stream.lexer with rest := [], location := stop } })
    | .failed error stop =>
      (some (.error error), { lexer := { stream.lexer with location := stop }, failed := true })

end TokenStream

/-- A character with which neither trivia nor a token begins. -/
def StartsNothing (c : Char) : Prop :=
  ¬ Text.isBlank c ∧ c ≠ '#' ∧ ¬ isWordStart c ∧ ¬ c.isDigit ∧ c ∉ oneCharPunctuation

/-- Why the lexer cannot go on at a text, given the trivia ahead of it and whether there
are tokens before that. -/
def Halts (started : Prop) (gap text : List Char) : SyntaxFault → Prop
  | .unterminatedComment => ∃ body, text = '/' :: '*' :: body ∧ ¬ ['*', '/'] <:+: body
  | .misplacedDirective => text.head? = some '#' ∧ started ∧ '\n' ∉ gap
  | .unexpectedCharacter c => text.head? = some c ∧ StartsNothing c
  | _ => False

/-- How a stream goes over a text from the offset `start`, at which the token before ends.
A token is the part of the text from `offset` to `stop`, after a gap; where there are no
more tokens, the remainder is a gap, or the lexer halts after one. -/
inductive Accounts (source : List Char) : Nat → TokenStream → Lexed → Prop
  | token {start offset stop : Nat} {stream later : TokenStream} {t : Token} {lexed : Lexed} :
      stream.next = (some (.ok t), later) →
      start ≤ offset → offset < stop → stop ≤ source.length →
      Gap (source.drop offset) (source.extract start offset) →
      t.text.toList = source.extract offset stop →
      t.location = .counted (source.take offset) →
      later.location = .counted (source.take stop) →
      Accounts source stop later lexed →
      Accounts source start stream ⟨t :: lexed.tokens, lexed.ending⟩
  | finished {start : Nat} {stream later : TokenStream} :
      stream.next = (none, later) → later.next = (none, later) →
      Gap [] (source.drop start) → later.location = .counted source →
      Accounts source start stream ⟨[], later.location, none⟩
  | failed {start offset : Nat} {stream later : TokenStream} {error : SyntaxError} :
      stream.next = (some (.error error), later) → later.next = (none, later) →
      start ≤ offset → offset < source.length →
      Gap (source.drop offset) (source.extract start offset) →
      error.location = .counted (source.take offset) →
      Halts (0 < start) (source.extract start offset) (source.drop offset) error.fault →
      Accounts source start stream ⟨[], later.location, some error⟩

theorem lexeme_halts {lineStart : Bool} {c : Char} {rest gap : List Char} {fault : SyntaxFault}
    {started : Prop} (h : lexeme lineStart c rest = .error fault) (hblank : ¬ Text.isBlank c)
    (hstart : lineStart = false → started ∧ '\n' ∉ gap) : Halts started gap (c :: rest) fault := by
  simp only [lexeme] at h
  split_ifs at h with hhash hline hword hnumber
  · cases h
    exact ⟨congrArg some hhash, hstart (by simpa using hline)⟩
  · split at h
    · cases h
    · rename_i hno
      cases h
      simp only [startsNumber, Bool.or_eq_true, not_or] at hnumber
      have hmark : c ∉ oneCharPunctuation := by
        intro hmem
        simp only [punctuationLength?] at hno
        split_ifs at hno with _ _ hone
        exact hone (List.contains_iff_mem.mpr hmem)
      exact ⟨rfl, hblank, hhash, hword, hnumber.1, hmark⟩

theorem Lexer.step_eq_failed {lexer : Lexer} {error : SyntaxError} {stop : Location}
    (h : lexer.step = .failed error stop) :
    (∃ opened, skipTrivia .between lexer.location lexer.rest = .error (opened, stop) ∧
        error = ⟨opened, .unterminatedComment⟩) ∨
      ∃ l c rest fault, skipTrivia .between lexer.location lexer.rest = .ok (l, c :: rest) ∧
        lexeme (!lexer.started || lexer.location.line < l.line) c rest = .error fault ∧
        error = ⟨l, fault⟩ := by
  unfold step at h
  split at h
  · rename_i opened _ htrivia
    cases h
    exact .inl ⟨opened, htrivia, rfl⟩
  · cases h
  · rename_i c rest htrivia
    split at h
    · rename_i fault hlexeme
      cases h
      exact .inr ⟨_, c, rest, fault, htrivia, hlexeme, rfl⟩
    · cases h

/-- Where a part of the text that comes next begins and ends. -/
theorem extract_of_drop {source front rest : List Char} {start : Nat}
    (hstart : start ≤ source.length) (h : source.drop start = front ++ rest) :
    source.extract start (start + front.length) = front ∧
      source.drop (start + front.length) = rest ∧
      source.take (start + front.length) = source.take start ++ front ∧
      start + front.length + rest.length = source.length := by
  refine ⟨?_, ?_, ?_, ?_⟩
  · rw [List.extract_eq_take_drop, h, Nat.add_sub_cancel_left, List.take_left]
  · rw [← List.drop_drop, h, List.drop_left]
  · rw [List.take_add, h, List.take_left]
  · have hlength := congrArg List.length h
    rw [List.length_drop, List.length_append] at hlength
    omega

/-- The lexer has read a text up to an offset. -/
structure Lexer.IsAt (source : List Char) (start : Nat) (lexer : Lexer) : Prop where
  le : start ≤ source.length
  rest : source.drop start = lexer.rest
  location : lexer.location = .counted (source.take start)
  started : lexer.started = true ↔ 0 < start

namespace Lexer.IsAt

variable {source : List Char} {start : Nat} {lexer : Lexer} (h : lexer.IsAt source start)

include h

/-- The lexer passes over a gap. -/
theorem gap {l : Location} {rest : List Char}
    (htrivia : skipTrivia .between lexer.location lexer.rest = .ok (l, rest)) :
    ∃ offset, start ≤ offset ∧ offset + rest.length = source.length ∧ source.drop offset = rest ∧
      l = .counted (source.take offset) ∧ Gap rest (source.extract start offset) := by
  have hexpects : Trivia.between.Expects lexer.rest := trivial
  obtain ⟨front, hfront, rfl, hgap⟩ := skipTrivia_leaves hexpects htrivia
  obtain ⟨hpart, hdrop, htake, hlength⟩ := extract_of_drop h.le (h.rest.trans hfront)
  refine ⟨start + front.length, Nat.le_add_right .., hlength, hdrop, ?_, ?_⟩
  · rw [h.location, Location.after_counted, htake]
  · rw [hpart]
    exact hgap

/-- **A token is a part of the text after a gap**, and the lexer has then read up to its end. -/
theorem token {t : Token} {next : Lexer} (hstep : lexer.step = .token t next) :
    ∃ offset stop, start ≤ offset ∧ offset < stop ∧
      Gap (source.drop offset) (source.extract start offset) ∧
      t.text.toList = source.extract offset stop ∧
      t.location = .counted (source.take offset) ∧ next.IsAt source stop := by
  obtain ⟨l, c, rest, kind, text, later, htrivia, hlexeme, rfl, rfl⟩ := step_eq_token.mp hstep
  obtain ⟨offset, hle, hlength, hdrop, rfl, hgap⟩ := h.gap htrivia
  obtain ⟨hsplit, hne⟩ : c :: rest = text ++ later ∧ text ≠ [] := lexeme_splits hlexeme
  have hpos : 0 < text.length := List.length_pos_iff.mpr hne
  obtain ⟨hpart, hlater, htake, hend⟩ := extract_of_drop (by omega) (hdrop.trans hsplit)
  refine ⟨offset, offset + text.length, hle, by omega, hdrop ▸ hgap, ?_, rfl, ?_, hlater, ?_, ?_⟩
  · rw [hpart, String.toList_ofList]
  · omega
  · rw [htake, ← Location.after_counted]
  · exact iff_of_true rfl (by omega)

theorem finished {stop : Location} (hstep : lexer.step = .finished stop) :
    Gap [] (source.drop start) ∧ stop = .counted source := by
  obtain ⟨offset, hle, hlength, _, rfl, hgap⟩ := h.gap (step_eq_finished.mp hstep)
  obtain rfl : offset = source.length := hlength
  rw [List.extract_eq_take_drop, List.take_of_length_le (by simp)] at hgap
  exact ⟨hgap, by rw [List.take_length]⟩

/-- No newline was passed over if the lexer is still on its line. -/
theorem newline_not_mem {offset : Nat} (hle : start ≤ offset)
    (hline : ¬ lexer.location.line < (Location.counted (source.take offset)).line) :
    '\n' ∉ source.extract start offset := by
  have htake : source.take offset = source.take start ++ source.extract start offset := by
    obtain ⟨k, rfl⟩ := Nat.exists_eq_add_of_le hle
    rw [List.take_add, List.extract_eq_take_drop, Nat.add_sub_cancel_left]
  rw [h.location, htake] at hline
  simp only [Location.counted, List.count_append] at hline
  rw [← List.count_eq_zero]
  omega

/-- **A failure is where nothing can follow the gap.** -/
theorem failed {error : SyntaxError} {stop : Location} (hstep : lexer.step = .failed error stop) :
    ∃ offset, start ≤ offset ∧ offset < source.length ∧
      Gap (source.drop offset) (source.extract start offset) ∧
      error.location = .counted (source.take offset) ∧
      Halts (0 < start) (source.extract start offset) (source.drop offset) error.fault := by
  rcases step_eq_failed hstep with
    ⟨opened, htrivia, rfl⟩ | ⟨l, c, rest, fault, htrivia, hlexeme, rfl⟩
  · have hexpects : Trivia.between.Expects lexer.rest := trivial
    rcases skipTrivia_unclosed hexpects htrivia with
      ⟨front, body, hfront, rfl, hgap, hbody⟩ | ⟨hopen, _⟩
    · obtain ⟨hpart, hdrop, htake, hlength⟩ := extract_of_drop h.le (h.rest.trans hfront)
      refine ⟨start + front.length, Nat.le_add_right .., ?_, ?_, ?_, body, hdrop, hbody⟩
      · rw [List.length_cons] at hlength
        omega
      · rw [hdrop, hpart]
        exact hgap
      · rw [h.location, Location.after_counted, htake]
    · cases hopen
  · obtain ⟨offset, hle, hlength, hdrop, rfl, hgap⟩ := h.gap htrivia
    refine ⟨offset, hle, ?_, hdrop ▸ hgap, rfl, ?_⟩
    · rw [List.length_cons] at hlength
      omega
    · rw [hdrop]
      refine lexeme_halts hlexeme ?_ ?_
      · intro hblank
        have hstop := skipTrivia_stop htrivia
        simp [Trivia.step, hblank] at hstop
      · intro hstart
        simp only [Bool.or_eq_false_iff, Bool.not_eq_false', decide_eq_false_iff_not] at hstart
        exact ⟨h.started.mp hstart.1, h.newline_not_mem hle hstart.2⟩

end Lexer.IsAt

theorem TokenStream.next_finished {lexer : Lexer} {stop : Location}
    (h : lexer.step = .finished stop) :
    ∃ later : TokenStream, next { lexer } = (none, later) ∧ later.next = (none, later) ∧
      later.location = stop := by
  refine ⟨{ lexer := { lexer with rest := [], location := stop } }, ?_, rfl, rfl⟩
  simp [next, h]

theorem TokenStream.next_failed {lexer : Lexer} {error : SyntaxError} {stop : Location}
    (h : lexer.step = .failed error stop) :
    ∃ later : TokenStream, next { lexer } = (some (.error error), later) ∧
      later.next = (none, later) ∧ later.location = stop := by
  refine ⟨{ lexer := { lexer with location := stop }, failed := true }, ?_, rfl, rfl⟩
  simp [next, h]

/-- **From an offset on**, everything is accounted for. -/
theorem Lexer.IsAt.accounts {source : List Char} {start : Nat} {lexer : Lexer}
    (h : lexer.IsAt source start) : Accounts source start { lexer } lexer.lexed := by
  -- every token shortens the text that is left
  induction hlength : lexer.rest.length using Nat.strong_induction_on generalizing start lexer with
  | _ n ih =>
    rw [lexed_eq]
    cases hstep : lexer.step with
    | token t next =>
      obtain ⟨offset, stop, hle, hlt, hgap, htext, hplace, hnext⟩ := h.token hstep
      have hshort : next.rest.length < n := hlength ▸ step_shortens hstep
      have hyields : TokenStream.next { lexer } = (some (.ok t), { lexer := next }) := by
        simp [TokenStream.next, hstep]
      exact .token hyields hle hlt hnext.le hgap htext hplace hnext.location
        (ih _ hshort hnext rfl)
    | finished stop =>
      obtain ⟨hgap, rfl⟩ := h.finished hstep
      obtain ⟨later, hnext, hsilent, hplace⟩ := TokenStream.next_finished hstep
      rw [← hplace]
      exact .finished hnext hsilent hgap hplace
    | failed error stop =>
      obtain ⟨offset, hle, hlt, hgap, hplace, hhalts⟩ := h.failed hstep
      obtain ⟨later, hnext, hsilent, rfl⟩ := TokenStream.next_failed hstep
      exact .failed hnext hsilent hle hlt hgap hplace hhalts

/-- **Every character is accounted for.** The tokens that the lexer gives of a text, one after
the other, are parts of it that are not empty and do not overlap. What stands ahead of a
token, and behind the last one if the lexer does not fail, is white space and comments. The
place of a token and the place of the lexer after it are those that counting gives. Where
the lexer fails, it stops after such a gap at the place that the error names, because of
what stands there, and it gives nothing more. -/
theorem lex_accounts (source : String) :
    Accounts source.toList 0 (.of source) (lex source) := by
  have hstart : Lexer.IsAt source.toList 0 { rest := source.toList } :=
    ⟨Nat.zero_le _, rfl, rfl, by simp⟩
  exact hstart.accounts

end ShaderGraph.Glsl
